/-
Editing one line of text in fixed storage.

A line is an array with a length and a cursor. A character is put in by moving the tail up
one place, one place at a time from its end, and taken out by moving the tail down, so the
loops are the ones of a C editor. What lies behind the length is leftover, and two editors
that agree on the line (`Line.Same`) may differ there: each edit is shown to keep the
agreement, which is all that two copies of one line need.
-/
import Mathlib.Data.List.Basic

set_option autoImplicit false

namespace System1.Lib

open Function List

variable {α : Type}

/-! ## Moving the tail -/

/-- `n` rounds of `for (i = c + n; i > c; --i) f[i] = f[i - 1];` -/
def openGap (f : Nat → α) (c : Nat) : Nat → (Nat → α)
  | 0 => f
  | n + 1 => openGap (update f (c + n + 1) (f (c + n))) c n

/-- `n` rounds of `for (; ...; ++i) f[i - 1] = f[i];` -/
def closeGap (f : Nat → α) (i : Nat) : Nat → (Nat → α)
  | 0 => f
  | n + 1 => closeGap (update f (i - 1) (f i)) (i + 1) n

/-- The upward copy shifts the `n` cells after `c` by one. -/
theorem openGap_apply (f : Nat → α) (c n j : Nat) :
    openGap f c n j = if c < j ∧ j ≤ c + n then f (j - 1) else f j := by
  induction n generalizing f with
  | zero =>
    rw [if_neg (by omega)]
    rfl
  | succ n ih =>
    show openGap _ c n j = _
    rw [ih]
    -- the last cell was written first, from a cell that only later rounds overwrite
    grind

/-- The downward copy shifts the `n` cells from `i` back by one. -/
theorem closeGap_apply (f : Nat → α) (i n j : Nat) (hi : 0 < i) :
    closeGap f i n j = if i ≤ j + 1 ∧ j + 1 < i + n then f (j + 1) else f j := by
  induction n generalizing f i with
  | zero =>
    rw [if_neg (by omega)]
    rfl
  | succ n ih =>
    show closeGap _ (i + 1) n j = _
    grind

/-! ## The line -/

structure Line (α : Type) where
  data : Nat → α
  len : Nat
  cursor : Nat

variable {l m : Line α}

namespace Line

/-- A character at the cursor: over the one there, or before it with the tail moved up. -/
def put (l : Line α) (overwrite : Bool) (c : α) : Line α :=
  if overwrite ∧ l.cursor < l.len then
    { l with data := update l.data l.cursor c, cursor := l.cursor + 1 }
  else
    { data := update (openGap l.data l.cursor (l.len - l.cursor)) l.cursor c
      len := l.len + 1
      cursor := l.cursor + 1 }

def deleteLeft (l : Line α) : Line α :=
  if l.cursor = 0 then l
  else
    { data := closeGap l.data l.cursor (l.len - l.cursor)
      len := l.len - 1
      cursor := l.cursor - 1 }

def deleteAt (l : Line α) : Line α :=
  if l.cursor ≥ l.len then l
  else { l with data := closeGap l.data (l.cursor + 1) (l.len - (l.cursor + 1)), len := l.len - 1 }

def left (l : Line α) : Line α := if l.cursor > 0 then { l with cursor := l.cursor - 1 } else l

def right (l : Line α) : Line α := if l.cursor < l.len then { l with cursor := l.cursor + 1 } else l

/-- The two hold one line, with the cursor at one place. -/
structure Same (l m : Line α) : Prop where
  len : l.len = m.len
  cursor : l.cursor = m.cursor
  data : ∀ i < l.len, l.data i = m.data i

/-- The cursor is in the line or at its end. -/
def Inside (l : Line α) : Prop := l.cursor ≤ l.len

theorem Same.refl (l : Line α) : l.Same l := ⟨rfl, rfl, fun _ _ => rfl⟩

theorem Same.symm (h : l.Same m) : m.Same l :=
  ⟨h.len.symm, h.cursor.symm, fun i hi => (h.data i (h.len ▸ hi)).symm⟩

theorem Same.trans {n : Line α} (h : l.Same m) (h' : m.Same n) : l.Same n :=
  ⟨h.len.trans h'.len, h.cursor.trans h'.cursor, fun i hi =>
    (h.data i hi).trans (h'.data i (h.len ▸ hi))⟩

/-! ### Lengths and cursors -/

theorem put_cursor (l : Line α) (overwrite : Bool) (c : α) :
    (l.put overwrite c).cursor = l.cursor + 1 := by
  unfold put
  split <;> rfl

theorem put_len (l : Line α) (overwrite : Bool) (c : α) :
    (l.put overwrite c).len = if overwrite ∧ l.cursor < l.len then l.len else l.len + 1 := by
  unfold put
  split <;> rfl

theorem deleteLeft_cursor (l : Line α) : l.deleteLeft.cursor = l.cursor - 1 := by
  unfold deleteLeft
  split
  · omega
  · rfl

theorem deleteAt_cursor (l : Line α) : l.deleteAt.cursor = l.cursor := by
  unfold deleteAt
  split <;> rfl

theorem left_cursor (l : Line α) : l.left.cursor = l.cursor - 1 := by
  unfold left
  split
  · rfl
  · omega

theorem right_cursor (h : l.Inside) : l.right.cursor = min (l.cursor + 1) l.len := by
  grind [Inside, right]

theorem Inside.put (h : l.Inside) (overwrite : Bool) (c : α) : (l.put overwrite c).Inside := by
  unfold Inside at h ⊢
  rw [put_cursor, put_len]
  split <;> omega

theorem Inside.deleteLeft (h : l.Inside) : l.deleteLeft.Inside := by grind [Inside, Line.deleteLeft]

theorem Inside.deleteAt (h : l.Inside) : l.deleteAt.Inside := by grind [Inside, Line.deleteAt]

theorem Inside.left (h : l.Inside) : l.left.Inside := by grind [Inside, Line.left]

theorem Inside.right (h : l.Inside) : l.right.Inside := by grind [Inside, Line.right]

theorem deleteLeft_len_le (l : Line α) : l.deleteLeft.len ≤ l.len := by grind [deleteLeft]

theorem deleteAt_len_le (l : Line α) : l.deleteAt.len ≤ l.len := by grind [deleteAt]

theorem left_len (l : Line α) : l.left.len = l.len := by
  unfold left
  split <;> rfl

theorem right_len (l : Line α) : l.right.len = l.len := by
  unfold right
  split <;> rfl

/-! ### The text -/

/-- The characters of a line. -/
def text (l : Line α) : List α := (range l.len).map l.data

@[simp, grind =] theorem text_length (l : Line α) : l.text.length = l.len := by simp [text]

@[simp, grind =] theorem text_getElem (l : Line α) {i : Nat} (hi : i < l.text.length) :
    l.text[i] = l.data i := by simp [text]

/-- Put at the cursor, over the byte there or before it. -/
theorem text_put (h : l.Inside) (overwrite : Bool) (c : α) : (l.put overwrite c).text =
    l.text.take l.cursor ++ c :: l.text.drop (if overwrite then l.cursor + 1 else l.cursor) := by
  unfold Inside at h
  unfold put
  split
  · exact ext_getElem (by grind) fun i _ _ => by grind [update_apply]
  · exact ext_getElem (by grind) fun i _ _ => by grind [update_apply, openGap_apply]

/-- The byte left of the cursor goes. -/
theorem text_deleteLeft (h : l.Inside) :
    l.deleteLeft.text = l.text.take (l.cursor - 1) ++ l.text.drop l.cursor := by
  unfold Inside at h
  unfold deleteLeft
  split
  · next hzero => simp [hzero]
  · exact ext_getElem (by grind) fun i _ _ => by grind [closeGap_apply]

theorem text_deleteAt (l : Line α) :
    l.deleteAt.text = l.text.take l.cursor ++ l.text.drop (l.cursor + 1) := by
  unfold deleteAt
  split
  · rw [take_of_length_le, drop_of_length_le, append_nil] <;> rw [text_length] <;> omega
  · exact ext_getElem (by grind) fun i _ _ => by grind [closeGap_apply]

theorem text_left (l : Line α) : l.left.text = l.text := by
  unfold left
  split <;> rfl

theorem text_right (l : Line α) : l.right.text = l.text := by
  unfold right
  split <;> rfl

/-! ### One line in two places -/

/-- Two lines are the same when text and cursor are. -/
theorem same_iff : l.Same m ↔ l.text = m.text ∧ l.cursor = m.cursor := by
  constructor
  · intro h
    refine ⟨ext_getElem (by simp [h.len]) fun i hi _ => ?_, h.cursor⟩
    simpa using h.data i (by simpa using hi)
  · rintro ⟨htext, hcursor⟩
    refine ⟨by simpa using congrArg length htext, hcursor, fun i hi => ?_⟩
    have := congrArg (·[i]?) htext
    grind

theorem Same.put (h : l.Same m) (hin : l.Inside) (overwrite : Bool) (c : α) :
    (l.put overwrite c).Same (m.put overwrite c) := by
  obtain ⟨htext, hcursor⟩ := same_iff.mp h
  have hin' : m.Inside := by rwa [Inside, ← h.len, ← hcursor]
  grind [same_iff, put_cursor, text_put]

/-- Deleting does not see past the text. -/
theorem Same.deleteLeft (h : l.Same m) : l.deleteLeft.Same m.deleteLeft := by
  have hlen := h.len
  have hcur := h.cursor
  unfold Line.deleteLeft
  rw [← hlen, ← hcur]
  split
  · exact h
  refine ⟨rfl, rfl, fun i hi => ?_⟩
  dsimp only at hi ⊢
  rw [closeGap_apply _ _ _ _ (by omega), closeGap_apply _ _ _ _ (by omega)]
  split
  · exact h.data _ (by omega)
  · exact h.data i (by omega)

theorem Same.deleteAt (h : l.Same m) : l.deleteAt.Same m.deleteAt := by
  grind [same_iff, text_deleteAt, deleteAt_cursor]

theorem Same.left (h : l.Same m) : l.left.Same m.left := by
  unfold Line.left
  rw [← h.cursor]
  split
  · exact ⟨h.len, by rw [h.cursor], h.data⟩
  · exact h

theorem Same.right (h : l.Same m) : l.right.Same m.right := by
  unfold Line.right
  rw [← h.cursor, ← h.len]
  split
  · exact ⟨rfl, rfl, h.data⟩
  · exact h

/-- Putting a character at the end of a line appends it. -/
theorem put_at_end (l : Line α) (h : l.cursor = l.len) (overwrite : Bool) (c : α) :
    l.put overwrite c = ⟨update l.data l.len c, l.len + 1, l.len + 1⟩ := by
  unfold put
  rw [if_neg (by omega), h, Nat.sub_self]
  rfl

end Line

end System1.Lib
