/-
Names and their stored forms.

`fat12_make_83_file_name` and `fat12_make_83_dir_name` pad with spaces and go to capitals,
`fat12_copy_83_name` trims and goes to small letters. So a name comes back unless it has
spaces where the padding is: at its end, or before its dot. And a stored name means
something else if it starts with the byte that marks a deleted slot; that byte is accepted
like any other. Both encoders give the two parts of a name in capitals (`encode83`), and what
is shown of that are the two parts trimmed, which is all that is used of the four functions.
-/
import System1.Fat12Lookup

set_option autoImplicit false

namespace System1.Fat12

open List

variable {l : List UInt8}

theorem lower_length_inj {l' : List UInt8} (hstart : l <+: l')
    (h : l.map fat12_lower = l'.map fat12_lower) : l = l' := by
  apply hstart.eq_of_length
  simpa using congrArg length h

/-! ## The two encoders -/

variable {name : List UInt8} {name83 : Name83}

/-- One of the two encoders. -/
def IsEncoder (make83 : List UInt8 → Except FsErr Name83) : Prop :=
  make83 = fat12_make_83_file_name ∨ make83 = fat12_make_83_dir_name

theorem IsEncoder.parts {make83 : List UInt8 → Except FsErr Name83} (hm : IsEncoder make83)
    (h : make83 name = .ok name83) :
    ∃ base ext, Parts name name83 base ext := by
  obtain rfl | rfl := hm
  · exact make_83_file_parts h
  · exact make_83_file_parts (make_83_dir_file h)

/-! ## What comes back -/

/-- The names are equal up to the case of ASCII letters. -/
def SameName (name name' : List UInt8) : Prop := name.map fat12_lower = name'.map fat12_lower

/-- The slot does not start with a marker, and the name comes back from it. -/
structure Recovered (e : Slot) (name : List UInt8) : Prop where
  free : e.first ≠ FAT12_ENTRY_FREE
  deleted : e.first ≠ FAT12_ENTRY_DELETED
  shown : SameName (fat12_copy_83_name e) name

/-- A space stands at the end of the name or before its dot. -/
def SpaceLost (name : List UInt8) : Prop := [SPACE] <:+ name ∨ [SPACE, DOT] <:+: name

/-- A space is lost exactly where it ends a part of the name. -/
theorem spaceLost_iff :
    SpaceLost name ↔ ∃ p q, name = p ++ SPACE :: q ∧ (q = [] ∨ q.head? = some DOT) := by
  constructor
  · rintro (⟨p, rfl⟩ | ⟨p, q, rfl⟩)
    · exact ⟨p, [], rfl, .inl rfl⟩
    · exact ⟨p, DOT :: q, by simp, .inr rfl⟩
  · rintro ⟨p, q, rfl, rfl | hdot⟩
    · exact .inl ⟨p, rfl⟩
    · cases q with
      | nil => cases hdot
      | cons c q =>
        obtain rfl : c = DOT := by simpa using hdot
        exact .inr ⟨p, q, by simp⟩

instance (name : List UInt8) : Decidable (SpaceLost name) := inferInstanceAs (Decidable (_ ∨ _))

section

variable {name : List UInt8} {base ext : List UInt8} {e : Slot}

section

variable (h : Parts name e.name base ext)

include h

theorem Parts.first : name.head?.map upper = some e.first := by
  obtain ⟨c, rest, rfl⟩ := exists_cons_of_ne_nil h.base_pos
  rw [h.eq]
  have hfirst : e.first = upper c := h.base_apply (i := 0) (by decide)
  rw [hfirst]
  rfl

/-- Nothing of the two parts is lost exactly when no space is. -/
theorem Parts.spaces :
    (base.getLast? ≠ some SPACE ∧ ext.getLast? ≠ some SPACE) ↔ ¬ SpaceLost name := by
  rw [← not_or, not_iff_not, spaceLost_iff]
  have hsplit : ∀ {l : List UInt8}, l.getLast? = some SPACE → ∃ p, l = p ++ [SPACE] := fun hl =>
    getLast?_eq_some_iff.mp hl
  constructor
  · rintro (hlast | hlast)
    · obtain ⟨p, hp⟩ := hsplit hlast
      refine ⟨p, dotted ext, by rw [h.eq, hp]; simp, ?_⟩
      unfold dotted
      split
      · exact .inl rfl
      · exact .inr rfl
    · obtain ⟨p, hp⟩ := hsplit hlast
      refine ⟨base ++ DOT :: p, [], ?_, .inl rfl⟩
      rw [h.eq, dotted, if_neg (by rw [hp]; simp), hp]
      simp
  · rintro ⟨p, q, hname, hq⟩
    rw [h.eq, ← singleton_append, ← append_assoc] at hname
    obtain ⟨r, hr, hr'⟩ | ⟨r, hr, hr'⟩ := append_eq_append_iff.mp hname
    · -- the space is behind the base
      cases r with
      | nil =>
        rw [append_nil] at hr
        exact .inl (by simp [← hr])
      | cons a r =>
        have hext : ext ≠ [] := by
          rintro rfl
          cases hr'
        rw [dotted, if_neg hext, cons_append, cons_eq_cons] at hr'
        obtain ⟨rfl, hext'⟩ := hr'
        obtain rfl | hdot := hq
        · have hlast := congrArg getLast? hr
          rw [append_nil] at hext'
          rw [getLast?_concat, ← hext', getLast?_append_cons, getLast?_cons_of_ne_nil hext] at hlast
          exact .inr hlast.symm
        · refine absurd ?_ h.ext_dot
          rw [hext']
          exact mem_append_right _ (mem_of_mem_head? hdot)
    · -- the space is in the base, and at its end, since there is no dot in it
      cases r with
      | nil => exact .inl (by simp [hr])
      | cons a r =>
        obtain rfl | hdot := hq
        · cases hr'
        obtain rfl : a = DOT := by simpa [hr'] using hdot
        exact absurd (by simp [hr]) h.base_dot

/-- A name comes back exactly when it does not start with the marker and no space is lost. -/
theorem Parts.recovered_iff (hnul : 0 ∉ name) :
    Recovered e name ↔ name.head? ≠ some FAT12_ENTRY_DELETED ∧ ¬ SpaceLost name := by
  have hstart : ∀ l : List UInt8, trimmed l <+: l := fun l => rdropWhile_prefix _ _
  have hshown : SameName (fat12_copy_83_name e) name ↔ ¬ SpaceLost name := by
    rw [← h.spaces, ← trimmed_eq_self, ← trimmed_eq_self]
    unfold SameName
    conv_lhs => rw [h.shown (h.ne_zero hnul), h.eq, map_append, map_dotted]
    rw [append_dotted_inj (no_dot_lower fun hm => h.base_dot ((hstart base).subset hm))
      (no_dot_lower h.base_dot)]
    grind [lower_length_inj]
  have hmarker : e.first ≠ FAT12_ENTRY_DELETED ↔ name.head? ≠ some FAT12_ENTRY_DELETED := by
    obtain ⟨c, hc, hup⟩ := Option.map_eq_some_iff.mp h.first
    rw [hc, ← hup, ne_eq, ne_eq, Option.some.injEq, upper_eq_deleted]
  rw [← hshown, ← hmarker]
  constructor
  · exact fun hr => ⟨hr.deleted, hr.shown⟩
  · rintro ⟨hdel, hsame⟩
    exact ⟨h.ne_zero hnul 0 (by decide), hdel, hsame⟩

end

end

/-- For every two accepted names, of files or of directories: both are stored without a
marker and come back, and equal stored forms mean equal names, exactly when neither starts
with the byte of a deleted slot and neither has a space at its end or before its dot. -/
theorem names_recovered_iff {make83 make83' : List UInt8 → Except FsErr Name83}
    (hmake : IsEncoder make83) (hmake' : IsEncoder make83') (name name' : CString) {e e' : Slot}
    (h : make83 name.bytes = .ok e.name) (h' : make83' name'.bytes = .ok e'.name) :
    (Recovered e name.bytes ∧ Recovered e' name'.bytes ∧
      (e.name = e'.name → SameName name.bytes name'.bytes)) ↔
    ∀ n ∈ [name.bytes, name'.bytes], n.head? ≠ some FAT12_ENTRY_DELETED ∧ ¬ SpaceLost n := by
  obtain ⟨base, ext, hparts⟩ := hmake.parts h
  obtain ⟨base', ext', hparts'⟩ := hmake'.parts h'
  rw [hparts.recovered_iff name.nonul, hparts'.recovered_iff name'.nonul]
  constructor
  · grind
  · intro hall
    have hn := hall _ mem_cons_self
    have hn' := hall _ (mem_cons_of_mem _ mem_cons_self)
    refine ⟨hn, hn', fun heq => ?_⟩
    -- what is shown is a function of the stored form
    have hshown : fat12_copy_83_name e = fat12_copy_83_name e' := copy_83_congr heq
    have hback := ((hparts.recovered_iff name.nonul).mpr hn).shown
    have hback' := ((hparts'.recovered_iff name'.nonul).mpr hn').shown
    rw [hshown] at hback
    exact hback.symm.trans hback'

/-- A slot with a stored name and nothing else. -/
def Slot.ofName (name83 : Name83) : Slot := fun j => if h : j < 11 then name83 ⟨j, h⟩ else 0

@[simp] theorem Slot.ofName_name (name83 : Name83) : (Slot.ofName name83).name = name83 := by
  funext j
  exact dif_pos j.isLt

/-- `a b.c` comes back, and so does `A B.C`, which is stored alike. -/
theorem inner_space_recovered : ∃ e e' : Slot,
    Recovered e (asciiBytes "a b.c") ∧ Recovered e' (asciiBytes "A B.C") ∧
      (e.name = e'.name → SameName (asciiBytes "a b.c") (asciiBytes "A B.C")) := by
  refine ⟨.ofName (encoded (asciiBytes "a b.c")), .ofName (encoded (asciiBytes "A B.C")), ?_⟩
  apply (names_recovered_iff (.inl rfl) (.inl rfl) ⟨asciiBytes "a b.c", by decide⟩
    ⟨asciiBytes "A B.C", by decide⟩ ?_ ?_).mpr
  · decide
  · rw [Slot.ofName_name]
    exact make_83_encoded (by decide)
  · rw [Slot.ofName_name]
    exact make_83_encoded (by decide)

/-- The name `E5 61` is accepted and stored as a deleted slot. `a` with a space behind it is
stored as `a` is, and comes back as `a`. -/
theorem marker_and_space_lost : ∃ e e' : Slot,
    fat12_make_83_file_name [0xE5, 0x61] = .ok e.name ∧ e.first = FAT12_ENTRY_DELETED ∧
      fat12_make_83_file_name (asciiBytes "a ") = .ok e'.name ∧
      fat12_make_83_file_name (asciiBytes "a") = .ok e'.name ∧
      ¬ SameName (asciiBytes "a ") (asciiBytes "a") ∧
      ¬ SameName (fat12_copy_83_name e') (asciiBytes "a ") := by
  refine ⟨.ofName (encoded [0xE5, 0x61]), .ofName (encoded (asciiBytes "a")), ?_, by decide, ?_, ?_,
    by unfold SameName; decide, by unfold SameName; decide⟩
  · rw [Slot.ofName_name]
    exact make_83_encoded (by decide)
  · rw [Slot.ofName_name, show encoded (asciiBytes "a") = encoded (asciiBytes "a ") by decide]
    exact make_83_encoded (by decide)
  · rw [Slot.ofName_name]
    exact make_83_encoded (by decide)

end System1.Fat12
