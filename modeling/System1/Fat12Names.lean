/-
Names of the FAT12 driver: what `fat12_make_83_file_name` encodes and
`fat12_copy_83_name` shows.

A name that is accepted has a base of one to eight bytes and possibly an extension of one
to three (`make_83_file_parts`); its stored form is the two in capitals, padded with spaces.
Going back is where information is lost. Trailing spaces disappear, a NUL ends the shown
name early, a dot inside a stored part is shown like the separator, and the comparison
with a shown name folds case. For a stored name without any of these, and a name without
spaces, the shown names are equal up to case exactly when the stored forms are equal
(`shown_eq_iff`). A stored name with `~` is accepted for further names
(`fat12_short_alias_eq`), so it is left out as well.
-/
import System1.Fat12Driver

set_option autoImplicit false

namespace System1.Fat12

open List

/-! ## Letters -/

/-- Something about every byte. -/
theorem forall_byte {P : UInt8 → Prop} (h : ∀ n : Fin 256, P (UInt8.ofFin n)) (c : UInt8) : P c :=
  h c.toFin

section

variable (c : UInt8)

include c

/-- The two foldings of case against each other, and the bytes they leave alone. -/
theorem folded :
    (upper (fat12_lower c) = upper c ∧ fat12_lower (upper c) = fat12_lower c ∧
      fat12_lower (fat12_lower c) = fat12_lower c) ∧
    ((fat12_lower c = 0 ↔ c = 0) ∧ (fat12_lower c = DOT ↔ c = DOT) ∧
      (fat12_lower c = TILDE ↔ c = TILDE)) ∧
    (upper c = 0 ↔ c = 0) ∧ (upper c = DOT ↔ c = DOT) ∧ (upper c = SPACE ↔ c = SPACE) := by
  revert c
  exact forall_byte (by decide +kernel)

theorem upper_lower : upper (fat12_lower c) = upper c := (folded c).1.1

theorem lower_upper : fat12_lower (upper c) = fat12_lower c := (folded c).1.2.1

theorem lower_lower : fat12_lower (fat12_lower c) = fat12_lower c := (folded c).1.2.2

theorem lower_eq_zero : fat12_lower c = 0 ↔ c = 0 := (folded c).2.1.1

theorem lower_eq_dot : fat12_lower c = DOT ↔ c = DOT := (folded c).2.1.2.1

theorem lower_eq_tilde : fat12_lower c = TILDE ↔ c = TILDE := (folded c).2.1.2.2

theorem upper_eq_zero : upper c = 0 ↔ c = 0 := (folded c).2.2.1

theorem upper_eq_dot : upper c = DOT ↔ c = DOT := (folded c).2.2.2.1

theorem upper_eq_space : upper c = SPACE ↔ c = SPACE := (folded c).2.2.2.2

theorem upper_eq_tilde : upper c = TILDE ↔ c = TILDE := by
  revert c
  exact forall_byte (by decide +kernel)

theorem upper_eq_deleted : upper c = FAT12_ENTRY_DELETED ↔ c = FAT12_ENTRY_DELETED := by
  revert c
  exact forall_byte (by decide +kernel)

theorem upper_upper : upper (upper c) = upper c := by
  revert c
  exact forall_byte (by decide +kernel)

end

/-! ## Encoding -/

/-- The separator and an extension, where there is one. -/
def dotted (ext : List UInt8) : List UInt8 := if ext = [] then [] else DOT :: ext

/-- Two parts in capitals, padded. -/
def encode83 (base ext : List UInt8) : Name83 := fun i =>
  if i.val < 8 then (base.map upper).getD i SPACE else (ext.map upper).getD (i - 8) SPACE

/-- Bytes put into a stored name one after the other. -/
def putAll (out : Name83) (i : Nat) : List UInt8 → Name83
  | [] => out
  | c :: rest => putAll (out.put i (upper c)) (i + 1) rest

/-- The characters land in capitals, one after the other. -/
theorem putAll_apply (out : Name83) (i : Nat) (l : List UInt8) (j : Fin 11) :
    putAll out i l j =
      if i ≤ j.val ∧ j.val < i + l.length then (l.map upper).getD (j - i) SPACE else out j := by
  induction l generalizing out i with
  | nil => simp [putAll]
  | cons c rest ih =>
    unfold putAll
    rw [ih]
    by_cases hj : j.val = i
    · simp [length_cons, Name83.put, hj]
    grind [length_cons, Name83.put]

variable {out name83 : Name83}

/-- The loop behind the separator. -/
theorem makeFileName_ext {rest : List UInt8} {base_len ext_len : Nat}
    (h : makeFileName rest base_len ext_len true out = .ok name83) (hle : ext_len ≤ 3) :
    base_len ≠ 0 ∧ DOT ∉ rest ∧ ext_len + rest.length ≤ 3 ∧
      name83 = putAll out (8 + ext_len) rest := by
  induction rest generalizing ext_len out with
  | nil =>
    unfold makeFileName at h
    split at h
    · cases h
    next hbase =>
    cases h
    exact ⟨hbase, by simp, by simpa using hle, rfl⟩
  | cons c rest ih =>
    unfold makeFileName at h
    by_cases hslash : c = SLASH
    · simp [hslash] at h
    by_cases hdot : c = DOT
    · simp [hdot] at h
    by_cases hlen : ext_len ≥ 3
    · simp [hslash, hdot, hlen] at h
    simp only [hslash, hdot, hlen, if_false, Bool.true_eq_false] at h
    obtain ⟨hbase, hno, hlen', hput⟩ := ih h (by omega)
    refine ⟨hbase, ?_, ?_, hput⟩
    · simp [hno, Ne.symm hdot]
    · simp only [length_cons]
      omega

/-- The loop before the separator. -/
theorem makeFileName_base {rest : List UInt8} {base_len : Nat}
    (h : makeFileName rest base_len 0 false out = .ok name83) (hle : base_len ≤ 8) :
    ∃ base ext, rest = base ++ dotted ext ∧ DOT ∉ base ∧ DOT ∉ ext ∧ 0 < base_len + base.length ∧
      base_len + base.length ≤ 8 ∧ ext.length ≤ 3 ∧
      name83 = putAll (putAll out base_len base) 8 ext := by
  induction rest generalizing base_len out with
  | nil =>
    unfold makeFileName at h
    split at h
    · cases h
    next hbase =>
    cases h
    refine ⟨[], [], rfl, by simp, by simp, ?_, by simpa using hle, by simp, rfl⟩
    simp only [length_nil]
    omega
  | cons c rest ih =>
    unfold makeFileName at h
    by_cases hslash : c = SLASH
    · simp [hslash] at h
    by_cases hdot : c = DOT
    · rw [if_neg hslash, if_pos hdot] at h
      split at h
      · cases h
      next hok =>
      -- the separator: the base is over and something follows
      obtain ⟨hbase, hno, hlen, hput⟩ := makeFileName_ext h (by omega)
      have hrest : rest ≠ [] := fun hrest => hok (.inr (.inr hrest))
      refine ⟨[], rest, ?_, by simp, hno, ?_, by simpa using hle, by omega, hput⟩
      · simp [dotted, hrest, hdot]
      · simp only [length_nil]
        omega
    by_cases hlen : base_len ≥ 8
    · simp [hslash, hdot, hlen] at h
    simp only [hslash, hdot, hlen, if_false, if_true] at h
    obtain ⟨base, ext, hrest, hbase, hext, hpos, hlen', hext', hput⟩ := ih h (by omega)
    refine ⟨c :: base, ext, by rw [hrest]; rfl, ?_, hext, ?_, ?_, hext', hput⟩
    · simp [hbase, Ne.symm hdot]
    · simp only [length_cons]
      omega
    · simp only [length_cons]
      omega

/-- A name in its two parts, and its stored form. -/
structure Parts (name : List UInt8) (name83 : Name83) (base ext : List UInt8) : Prop where
  eq : name = base ++ dotted ext
  base_dot : DOT ∉ base
  ext_dot : DOT ∉ ext
  base_pos : base ≠ []
  base_len : base.length ≤ 8
  ext_len : ext.length ≤ 3
  stored : name83 = encode83 base ext

variable {name : List UInt8}

/-- An accepted name and its stored form. -/
theorem make_83_file_parts (h : fat12_make_83_file_name name = .ok name83) :
    ∃ base ext, Parts name name83 base ext := by
  unfold fat12_make_83_file_name at h
  split at h
  · cases h
  obtain ⟨base, ext, hname, hbase, hext, hpos, hlen, hlen', hput⟩ := makeFileName_base h (by omega)
  refine ⟨base, ext, hname, hbase, hext, ne_nil_of_length_pos (by omega), by omega, hlen', ?_⟩
  rw [hput]
  funext i
  unfold encode83
  rw [putAll_apply, putAll_apply]
  by_cases hi8 : i.val < 8
  · rw [if_neg (by omega), if_pos hi8]
    by_cases hib : i.val < base.length
    · rw [if_pos (by omega), Nat.sub_zero]
    rw [if_neg (by omega), getD_eq_default]
    · rfl
    · simpa using hib
  rw [if_neg hi8]
  by_cases hie : i.val < 8 + ext.length
  · rw [if_pos (by omega)]
  rw [if_neg (by omega), if_neg (by omega), getD_eq_default]
  · rfl
  · simp only [length_map]
    omega

variable {l : List UInt8}

/-- The loop of `fat12_make_83_dir_name`. -/
theorem makeDirName_no_dot {len : Nat} (h : makeDirName l len out = .ok name83) : DOT ∉ l := by
  induction l generalizing len out with
  | nil => simp
  | cons c rest ih => grind [makeDirName]

/-- A name without a dot is encoded alike by both encoders. -/
theorem makeDirName_file {len : Nat} (h : makeDirName l len out = .ok name83)
    (hne : 0 < len + l.length) :
    makeFileName l len 0 false out = .ok name83 := by
  induction l generalizing len out with
  | nil =>
    unfold makeFileName
    rw [if_neg (by simpa using Nat.pos_iff_ne_zero.mp hne)]
    exact h
  | cons c rest ih => grind [makeDirName, makeFileName]

/-- The name of a directory is stored as that of a file is. -/
theorem make_83_dir_file (h : fat12_make_83_dir_name name = .ok name83) :
    fat12_make_83_file_name name = .ok name83 := by
  unfold fat12_make_83_dir_name at h
  split at h
  · cases h
  next hne =>
  have hdot : DOT ∉ name := makeDirName_no_dot h
  unfold fat12_make_83_file_name
  rw [if_neg]
  · exact makeDirName_file h (by simpa using length_pos_iff.mpr hne)
  · rintro (hnil | hhead)
    · exact hne hnil
    · exact hdot (mem_of_mem_head? hhead)

/-- A function that encodes names: what it accepts starts with a byte that is stored in
capitals and is no dot. -/
def Encodes (make83 : List UInt8 → Except FsErr Name83) : Prop :=
  ∀ name name83, make83 name = .ok name83 →
    ∃ c rest, name = c :: rest ∧ c ≠ DOT ∧ name83 0 = upper c

/-- The first byte of an encoded file name is its first character. -/
theorem encodes_file : Encodes fat12_make_83_file_name := by
  intro name name83 h
  obtain ⟨base, ext, hparts⟩ := make_83_file_parts h
  obtain ⟨c, rest, rfl⟩ := exists_cons_of_ne_nil hparts.base_pos
  refine ⟨c, rest ++ dotted ext, hparts.eq, fun heq => hparts.base_dot (by simp [heq]), ?_⟩
  rw [hparts.stored]
  rfl

theorem encodes_dir : Encodes fat12_make_83_dir_name := fun name name83 h =>
  encodes_file name name83 (make_83_dir_file h)

section

variable {make83 : List UInt8 → Except FsErr Name83} (h : Encodes make83)
  (hname : make83 name = .ok name83)

include h hname

theorem Encodes.ne_dot : name83 0 ≠ DOT := by
  obtain ⟨c, rest, -, hc, h0⟩ := h name name83 hname
  rw [h0]
  exact fun heq => hc ((upper_eq_dot c).mp heq)

theorem Encodes.ne_zero (hnul : 0 ∉ name) :
    name83 0 ≠ 0 := by
  obtain ⟨c, rest, rfl, -, h0⟩ := h name name83 hname
  rw [h0]
  intro heq
  exact hnul (by simp [(upper_eq_zero c).mp heq])

end

/-! ## Shown names -/

theorem trimmed_pad (l : List UInt8) (n : Nat) :
    trimmed (l ++ replicate n SPACE) = trimmed l := by
  induction n with
  | zero => rw [replicate_zero, append_nil]
  | succ n ih =>
    rw [replicate_succ', ← append_assoc, ← ih]
    unfold trimmed
    rw [rdropWhile_concat_pos _ _ _ (by simp)]

/-- Nothing is trimmed exactly when there is no space at the end. -/
theorem trimmed_eq_self : trimmed l = l ↔ l.getLast? ≠ some SPACE := by
  unfold trimmed
  rw [rdropWhile_eq_self_iff]
  constructor
  · intro h hlast
    have hne : l ≠ [] := by
      rintro rfl
      cases hlast
    grind
  · grind

/-- Trimming does not depend on case. -/
theorem trimmed_map {f : UInt8 → UInt8} (hf : ∀ c, f c = SPACE ↔ c = SPACE) (l : List UInt8) :
    trimmed (l.map f) = (trimmed l).map f := by
  induction l using reverseRecOn with
  | nil => rfl
  | append_singleton l c ih =>
    rw [map_append, map_singleton]
    unfold trimmed at ih ⊢
    by_cases hc : c = SPACE
    · simp_all
    · simp_all

/-- A part that is stored and trimmed. -/
theorem trimmed_stored {part : List UInt8} {n : Nat} {e : Nat → UInt8} (hlen : part.length ≤ n)
    (h : ∀ i < n, e i = (part.map upper).getD i SPACE) :
    trimmed ((range n).map e) = (trimmed part).map upper := by
  have hpad : (range n).map e =
      part.map upper ++ replicate (n - part.length) SPACE := by
    apply ext_getElem
    · grind
    · grind
  rw [hpad, trimmed_pad, trimmed_map upper_eq_space]

/-- Trimming and padding. -/
theorem trimmed_getD (l : List UInt8) (i : Nat) : (trimmed l).getD i SPACE = l.getD i SPACE := by
  have hsplit : trimmed l ++ l.rtakeWhile (· = SPACE) = l := rdropWhile_append_rtakeWhile
  conv_rhs => rw [← hsplit]
  by_cases hi : i < (trimmed l).length
  · rw [getD_append _ _ _ _ hi]
  rw [getD_append_right _ _ _ _ (by omega), getD_eq_default _ _ (by omega)]
  by_cases hj : i - (trimmed l).length < (l.rtakeWhile (· = SPACE)).length
  · rw [getD_eq_getElem _ _ hj]
    have hspace := mem_rtakeWhile_imp (getElem_mem hj)
    exact (of_decide_eq_true hspace).symm
  · rw [getD_eq_default _ _ (by omega)]

/-- Base and extension can be read off a shown name. -/
theorem append_dotted_inj {p q p' q' : List UInt8} (hp : DOT ∉ p) (hp' : DOT ∉ p') :
    p ++ dotted q = p' ++ dotted q' ↔ p = p' ∧ q = q' := by
  have hbase : ∀ {p : List UInt8} (q : List UInt8), DOT ∉ p →
      (p ++ dotted q).takeWhile (· ≠ DOT) = p := by
    intro p q hp
    rw [takeWhile_append_of_pos]
    · unfold dotted
      split <;> simp
    · grind
  grind [dotted, append_cancel_left]

/-- A stored name without the bytes that are shown as something else: all of it is in
capitals, and there is no NUL, no dot and no `~` in it. -/
def Slot.plainName (e : Slot) : Bool :=
  (range 11).all fun i => e i ≠ 0 ∧ e i ≠ DOT ∧ e i ≠ TILDE ∧ upper (e i) = e i

def shownBase (e : Slot) : List UInt8 := trimmed ((range 8).map e)

def shownExt (e : Slot) : List UInt8 := trimmed ((range 3).map fun i => e (8 + i))

section

variable {e : Slot}

theorem Slot.plainName_apply (he : e.plainName = true) {i : Nat} (hi : i < 11) :
    e i ≠ 0 ∧ e i ≠ DOT ∧ e i ≠ TILDE ∧ upper (e i) = e i := by
  simpa using all_eq_true.mp he i (mem_range.mpr hi)

theorem mem_shownBase {c : UInt8} (h : c ∈ shownBase e) : ∃ i < 11, c = e i := by
  have hsub := rdropWhile_prefix _ _ |>.subset h
  obtain ⟨i, hi, rfl⟩ := mem_map.mp hsub
  exact ⟨i, by have := mem_range.mp hi; omega, rfl⟩

theorem mem_shownExt {c : UInt8} (h : c ∈ shownExt e) : ∃ i < 11, c = e i := by
  have hsub := rdropWhile_prefix _ _ |>.subset h
  obtain ⟨i, hi, rfl⟩ := mem_map.mp hsub
  exact ⟨8 + i, by have := mem_range.mp hi; omega, rfl⟩

/-- A shown byte is the separator or a stored one. -/
theorem mem_shown {c : UInt8} (h : c ∈ shownBase e ++ dotted (shownExt e)) :
    c = DOT ∨ ∃ i < 11, c = e i := by
  obtain h | h := mem_append.mp h
  · exact .inr (mem_shownBase h)
  grind [dotted, mem_cons.mp, mem_shownExt]

theorem map_dotted (ext : List UInt8) :
    (dotted ext).map fat12_lower = dotted (ext.map fat12_lower) := by
  unfold dotted
  split <;> simp_all [(lower_eq_dot DOT).mpr]

/-- A stored name without a NUL is shown to its end. -/
theorem copy_83_eq (he : ∀ i < 11, e i ≠ 0) :
    fat12_copy_83_name e = (shownBase e ++ dotted (shownExt e)).map fat12_lower := by
  show ((shownBase e ++ dotted (shownExt e)).map fat12_lower).takeWhile (· ≠ 0) = _
  rw [takeWhile_eq_self_iff]
  intro c hc
  obtain ⟨c, hmem, rfl⟩ := mem_map.mp hc
  simp only [ne_eq, lower_eq_zero, decide_not, Bool.not_eq_true', decide_eq_false_iff_not]
  rintro rfl
  obtain h | ⟨i, hi, h0⟩ := mem_shown hmem
  · cases h
  · exact he i hi h0.symm

theorem copy_83_plain (he : e.plainName = true) :
    fat12_copy_83_name e = (shownBase e ++ dotted (shownExt e)).map fat12_lower :=
  copy_83_eq fun _ hi => (e.plainName_apply he hi).1

/-- A plain stored name is shown without a tilde. -/
theorem copy_83_no_tilde (he : e.plainName = true) : TILDE ∉ fat12_copy_83_name e := by
  rw [copy_83_plain he]
  intro hc
  obtain ⟨c, hmem, hlow⟩ := mem_map.mp hc
  obtain rfl := (lower_eq_tilde c).mp hlow
  obtain h | ⟨i, hi, h0⟩ := mem_shown hmem
  · cases h
  · exact (e.plainName_apply he hi).2.2.1 h0.symm

/-- What is shown depends on the stored name only. -/
theorem copy_83_congr {e e' : Slot} (h : e.name = e'.name) :
    fat12_copy_83_name e = fat12_copy_83_name e' := by
  have hget : ∀ i < 11, e i = e' i := fun i hi => congrFun h ⟨i, hi⟩
  have hbase : (range 8).map e = (range 8).map e' :=
    map_congr_left fun i hi => hget i (by have := mem_range.mp hi; omega)
  have hext : (range 3).map (fun i => e (8 + i)) = (range 3).map fun i => e' (8 + i) :=
    map_congr_left fun i hi => hget (8 + i) (by have := mem_range.mp hi; omega)
  unfold fat12_copy_83_name
  rw [hbase, hext]

theorem no_dot_lower (h : DOT ∉ l) : DOT ∉ l.map fat12_lower := by grind [mem_map.mp, lower_eq_dot]

end

/-! ## Stored names -/

section

variable {base ext : List UInt8} {e : Slot}

theorem Parts.base_apply (h : Parts name e.name base ext) {i : Nat} (hi : i < 8) :
    e i = (base.map upper).getD i SPACE := by
  have hget : e i = encode83 base ext ⟨i, by omega⟩ := congrFun h.stored ⟨i, by omega⟩
  rw [hget]
  unfold encode83
  rw [if_pos hi]

/-- The extension of an encoded name. -/
theorem Parts.ext_apply (h : Parts name e.name base ext) {i : Nat} (hi : i < 3) :
    e (8 + i) = (ext.map upper).getD i SPACE := by
  have hget : e (8 + i) = encode83 base ext ⟨8 + i, by omega⟩ := congrFun h.stored ⟨8 + i, by omega⟩
  rw [hget]
  unfold encode83
  rw [if_neg (by simp)]
  simp

theorem dotted_mem {c : UInt8} (hc : c ∈ ext) : c ∈ dotted ext := by grind [dotted]

section

variable (h : Parts name e.name base ext)

include h

/-- A stored byte is a byte of the name in capitals, or padding. -/
theorem Parts.byte {i : Nat} (hi : i < 11) :
    e i = SPACE ∨ ∃ c ∈ name, c ≠ DOT ∧ e i = upper c := by
  have hpart : ∀ (part : List UInt8) (k : Nat), (part.map upper).getD k SPACE = SPACE ∨
      ∃ c ∈ part, (part.map upper).getD k SPACE = upper c := by grind
  by_cases hi8 : i < 8
  · rw [h.base_apply hi8]
    obtain hspace | ⟨c, hc, hup⟩ := hpart base i
    · exact .inl hspace
    · exact .inr ⟨c, h.eq ▸ mem_append_left _ hc, ne_of_mem_of_not_mem hc h.base_dot, hup⟩
  obtain ⟨j, rfl⟩ : ∃ j, i = 8 + j := ⟨i - 8, by omega⟩
  rw [h.ext_apply (by omega)]
  obtain hspace | ⟨c, hc, hup⟩ := hpart ext j
  · exact .inl hspace
  · exact .inr ⟨c, h.eq ▸ mem_append_right _ (dotted_mem hc),
      ne_of_mem_of_not_mem hc h.ext_dot, hup⟩

theorem Parts.ne_zero (hnul : 0 ∉ name) : ∀ i < 11, e i ≠ 0 := by
  intro i hi h0
  obtain hspace | ⟨c, hc, -, hup⟩ := h.byte hi
  · rw [hspace] at h0
    cases h0
  · exact hnul ((upper_eq_zero c).mp (hup.symm.trans h0) ▸ hc)

/-- What is shown are the two parts, trimmed. -/
theorem Parts.shown (he : ∀ i < 11, e i ≠ 0) :
    (fat12_copy_83_name e).map fat12_lower =
      (trimmed base).map fat12_lower ++ dotted ((trimmed ext).map fat12_lower) := by
  have hbase : shownBase e = (trimmed base).map upper :=
    trimmed_stored h.base_len fun i hi => h.base_apply hi
  have hext : shownExt e = (trimmed ext).map upper :=
    trimmed_stored h.ext_len fun i hi => h.ext_apply hi
  have hlower : ∀ l : List UInt8, ((l.map upper).map fat12_lower).map fat12_lower =
      l.map fat12_lower := by simp [map_map, lower_upper, lower_lower]
  rw [copy_83_eq he, hbase, hext, map_append, map_append, map_dotted,
    map_dotted, hlower, hlower]

end

/-- The shown name is the one asked for, up to case, exactly when its stored form is. -/
theorem shown_eq_iff (he : e.plainName = true) (hname : SPACE ∉ name)
    (h83 : fat12_make_83_file_name name = .ok name83) :
    (fat12_copy_83_name e).map fat12_lower = name.map fat12_lower ↔ e.name = name83 := by
  obtain ⟨base, ext, hparts⟩ := make_83_file_parts h83
  constructor
  · intro h
    have hleft : (fat12_copy_83_name e).map fat12_lower =
        (shownBase e).map fat12_lower ++ dotted ((shownExt e).map fat12_lower) := by
      rw [copy_83_plain he, ← map_dotted, ← map_append, map_map]
      exact map_congr_left fun c _ => lower_lower c
    have hshown : DOT ∉ shownBase e := by grind [mem_shownBase, e.plainName_apply]
    rw [hleft, hparts.eq, map_append, map_dotted,
      append_dotted_inj (no_dot_lower hshown) (no_dot_lower hparts.base_dot)] at h
    -- what is stored is in capitals, so nothing but the padding has been lost
    have hcapitals : ∀ {l part : List UInt8}, (∀ c ∈ l, ∃ i < 11, c = e i) →
        l.map fat12_lower = part.map fat12_lower → l = part.map upper := by
      intro l part hl h
      calc l = l.map upper := by
            conv_lhs => rw [← map_id l]
            refine map_congr_left fun c hc => ?_
            grind [e.plainName_apply]
        _ = (l.map fat12_lower).map upper := by simp [upper_lower]
        _ = (part.map fat12_lower).map upper := by rw [h]
        _ = part.map upper := by simp [upper_lower]
    rw [hparts.stored]
    funext i
    unfold encode83
    rw [← hcapitals (fun _ => mem_shownBase) h.1, ← hcapitals (fun _ => mem_shownExt) h.2,
      shownBase, shownExt, trimmed_getD, trimmed_getD]
    split
    · next hi =>
      rw [getD_eq_getElem _ _ (by simpa using hi)]
      simp [Slot.name]
    · next hi => grind [Slot.name]
  · rintro rfl
    have hwhole : ∀ part, part ⊆ name → trimmed part = part := fun part hsub =>
      trimmed_eq_self.mpr fun hlast => hname (hsub (mem_of_getLast? hlast))
    rw [hparts.shown fun _ hi => (e.plainName_apply he hi).1, hwhole base, hwhole ext, hparts.eq,
      map_append, map_dotted]
    · rw [hparts.eq]
      exact fun c hc => mem_append_right _ (dotted_mem hc)
    · rw [hparts.eq]
      exact subset_append_left _ _

/-- The stored form of a name without `~` is plain. -/
theorem plainName_of_make (h83 : fat12_make_83_file_name name = .ok name83)
    (hname : e.name = name83) (hnul : 0 ∉ name) (htilde : TILDE ∉ name) : e.plainName = true := by
  subst hname
  obtain ⟨base, ext, hparts⟩ := make_83_file_parts h83
  refine all_eq_true.mpr fun i hi => decide_eq_true ?_
  obtain hspace | ⟨c, hc, hdot, hup⟩ := hparts.byte (mem_range.mp hi)
  · rw [hspace]
    decide
  · grind [upper_eq_zero, upper_eq_dot, upper_eq_tilde, upper_upper]

end

end System1.Fat12
