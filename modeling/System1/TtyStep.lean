/-
The terminal and the display in step.

`InStep` says that the buffer of the terminal and the copy of the display are one line with
one cursor and one insert mode. Each edit is made on both sides by the same operation on a
line, so the agreement is kept by `Lib.LineEdit`. A recall is different: the hook replaces
the line, and the display is started afresh and typed into. Starting afresh turns the insert
mode of the display on, and that of the terminal stays as it is. So a recall while
overwriting puts the two out of step, and so does an overwrite on a line that fills the copy
of the display, which then refuses every character; `in_step_iff` says that these are the
only ways.
-/
import System1.ShellHooks
import Mathlib.Data.List.Induction

set_option autoImplicit false

namespace System1.Tty

open System1.Lib List

/-! ## In step -/

/-- The buffer and the display hold one line, with one cursor and one mode. -/
structure InStep {χ : Type} (s : Readline χ) : Prop where
  text : s.line.Same s.vga.text
  mode : s.vga.text_insert_mode = s.insert_mode

section

variable {χ : Type} (VGA_TEXT_PATH_MAX : Nat) (hooks : Hooks χ) (cap : Nat)

/-- What the history hook answers. -/
def historyAnswer (s : Readline χ) (direction : Int) : Int :=
  match hooks.history_hook with
  | none => 0
  | some history_hook => (history_hook s.hooked direction cap s.line).1

/-- The key makes a hook replace the line. -/
def Redraws (s : Readline χ) (key : Int) : Prop :=
  (key = KEY_UP ∧ historyAnswer hooks cap s (-1) ≠ 0) ∨
    (key = KEY_DOWN ∧ historyAnswer hooks cap s 1 ≠ 0) ∨ (key = KEY_TAB ∧ hooks.tab_hook.isSome)

/-- The key types characters. -/
def Types (key : Int) : Prop :=
  (0 < key ∧ key < 128 ∧ key ≠ KEY_CTRL_C ∧ key ≠ KEY_NEWLINE ∧ key ≠ KEY_BACKSPACE ∧
    key ≠ KEY_TAB) ∨ (key = KEY_TAB ∧ hooks.tab_hook = none)

/-- The next character goes over one of a line that fills the display's copy. -/
def OverFull (s : Readline χ) : Prop :=
  s.insert_mode = 0 ∧ s.line.cursor < s.line.len ∧ s.line.len < cap - 1 ∧
    s.line.len = VGA_TEXT_PATH_MAX

/-- The keys that bring the two out of step: the line is replaced while overwriting, or a
full line is overwritten. -/
def Slips (s : Readline χ) (key : Int) : Prop :=
  (Redraws hooks cap s key ∧ s.insert_mode = 0) ∨
    (Types hooks key ∧ OverFull VGA_TEXT_PATH_MAX cap s)

end

/-- The variables of the loop are in range. -/
structure Valid {χ : Type} (cap : Nat) (s : Readline χ) : Prop where
  inside : s.line.Inside
  room : s.line.len < cap
  mode : s.insert_mode = 0 ∨ s.insert_mode = 1

/-! ## Drawing a line again -/

section Redraw

variable {max : Nat}

/-- Characters typed into a display that inserts, at the end of what is there. -/
theorem typeLoop_spec (buf : Nat → UInt8) (n i : Nat) {v : Vga} (hfit : v.text.len + n ≤ max)
    (hend : v.text.cursor = v.text.len) (hmode : v.text_insert_mode = 1) :
    (typeLoop max buf i n v).text.text = v.text.text ++ (range' i n).map buf ∧
    (typeLoop max buf i n v).text.cursor = v.text.len + n ∧
    (typeLoop max buf i n v).text_insert_mode = 1 := by
  induction n generalizing i v with
  | zero => exact ⟨(append_nil _).symm, hend, hmode⟩
  | succ n ih =>
    have htext : (pc_vga_text_putc max v (buf i)).text =
        ⟨Function.update v.text.data v.text.len (buf i), v.text.len + 1, v.text.len + 1⟩ := by
      rw [text_putc_text v (by omega), Line.put_at_end _ hend]
    have hchars : (pc_vga_text_putc max v (buf i)).text.text = v.text.text ++ [buf i] := by
      rw [text_putc_text v (by omega), hmode, Line.text_put hend.le, hend]
      simp [← Line.text_length]
    have hstep :=
      ih (i + 1) (v := pc_vga_text_putc max v (buf i)) (by rw [htext]; dsimp only; omega)
      (by rw [htext]) ((text_putc_mode v max _).trans hmode)
    rw [hchars, htext, append_assoc] at hstep
    rw [← Nat.add_right_comm, Nat.add_assoc] at hstep
    exact hstep

/-- Moving the screen cursor back changes no text. -/
theorem leftLoop_spec (n : Nat) (v : Vga) : (leftLoop n v).text.text = v.text.text ∧
    (leftLoop n v).text.cursor = v.text.cursor - n ∧
    (leftLoop n v).text_insert_mode = v.text_insert_mode := by
  induction n generalizing v with
  | zero => exact ⟨rfl, rfl, rfl⟩
  | succ n ih =>
    obtain ⟨htext, hcur, hmode⟩ := ih (pc_vga_text_left v)
    rw [text_left_text, Line.text_left] at htext
    rw [text_left_text, Line.left_cursor] at hcur
    exact ⟨htext, hcur.trans (by omega), hmode.trans (text_left_mode v)⟩

/-- A line drawn again is on the display, and the display inserts. -/
theorem tty_redraw_line_spec {l : Line UInt8} (hin : l.Inside) (hfit : l.len ≤ max) (row col : Nat)
    (v : Vga) : l.Same (tty_redraw_line max l row col v).text ∧
      (tty_redraw_line max l row col v).text_insert_mode = 1 := by
  obtain ⟨htext, hcur, hmode⟩ := typeLoop_spec l.data l.len 0
    (v := pc_vga_text_begin v row col) ((Nat.zero_add l.len).le.trans hfit) rfl rfl
  obtain ⟨htext', hcur', hmode'⟩ := leftLoop_spec (l.len - l.cursor)
    (typeLoop max l.data 0 l.len (pc_vga_text_begin v row col))
  refine ⟨Line.same_iff.mpr ⟨?_, ?_⟩, hmode'.trans hmode⟩
  · rw [tty_redraw_line, htext', htext, ← range_eq_range']
    rfl
  · have hcur₀ : l.cursor = 0 + l.len - (l.len - l.cursor) := by
      unfold Line.Inside at hin
      omega
    exact hcur₀.trans (hcur.symm ▸ hcur').symm

end Redraw

/-! ## Typing -/

section Typing

variable {χ : Type} {max cap : Nat}

/-- A character that was not refused. -/
def typed (max : Nat) (s : Readline χ) (c : UInt8) : Readline χ :=
  { s with line := s.line.put (s.insert_mode = 0) c, vga := pc_vga_text_putc max s.vga c }

theorem typed_cursor (s : Readline χ) (c : UInt8) :
    (typed max s c).line.cursor = s.line.cursor + 1 :=
  Line.put_cursor ..

theorem typed_len (s : Readline χ) (c : UInt8) : (typed max s c).line.len =
    if s.insert_mode = 0 ∧ s.line.cursor < s.line.len then s.line.len else s.line.len + 1 := by
  show (s.line.put (s.insert_mode = 0) c).len = _
  rw [Line.put_len]
  simp

section

variable {s s' : Readline χ} {c : UInt8}

/-- A character is typed while there is room for it. -/
theorem typeChar_some (h : typeChar max cap s c = some s') :
    s.line.len < cap - 1 ∧ s' = typed max s c := by
  unfold typeChar tty_insert_char at h
  by_cases hfull : cap = 0 ∨ s.line.len ≥ cap - 1
  · rw [if_pos hfull] at h
    cases h
  · rw [if_neg hfull] at h
    exact ⟨by omega, (Option.some.inj h).symm⟩

theorem typeChar_valid (hv : Valid cap s) (h : typeChar max cap s c = some s') : Valid cap s' := by
  obtain ⟨hroom, rfl⟩ := typeChar_some h
  refine ⟨hv.inside.put _ c, ?_, hv.mode⟩
  rw [typed_len]
  split <;> omega

theorem typeChar_len_le (h : typeChar max cap s c = some s') :
    s.line.len ≤ s'.line.len := by
  obtain ⟨-, rfl⟩ := typeChar_some h
  rw [typed_len]
  split <;> omega

/-- A character that the display takes as well. -/
theorem typeChar_inStep (hv : Valid cap s) (hs : InStep s) (h : typeChar max cap s c = some s')
    (hfit : s'.line.len ≤ max) (hn : ¬ OverFull max cap s) :
    InStep s' ∧ ¬ OverFull max cap s' := by
  obtain ⟨hroom, rfl⟩ := typeChar_some h
  rw [typed_len] at hfit
  -- a full line grows if it is not overwritten
  have hless : s.line.len < max := by
    by_cases hover : s.insert_mode = 0 ∧ s.line.cursor < s.line.len
    · rw [if_pos hover] at hfit
      exact Nat.lt_of_le_of_ne hfit fun heq => hn ⟨hover.1, hover.2, hroom, heq⟩
    · rw [if_neg hover] at hfit
      omega
  refine ⟨⟨?_, ?_⟩, ?_⟩
  · show (s.line.put (s.insert_mode = 0) c).Same (pc_vga_text_putc max s.vga c).text
    rw [text_putc_text _ (by rw [← hs.text.len]; exact hless), hs.mode]
    exact hs.text.put hv.inside _ c
  · show (pc_vga_text_putc max s.vga c).text_insert_mode = s.insert_mode
    rw [text_putc_mode, hs.mode]
  · -- overwriting keeps the length, appending leaves the cursor at the end
    rintro ⟨hmode, hcur, -, heq⟩
    have hmode' : s.insert_mode = 0 := hmode
    grind [typed_cursor, typed_len]

end

/-- Typing keeps the line within its buffer. -/
theorem typeAll_valid (cs : List UInt8) : ∀ s : Readline χ, Valid cap s →
    Valid cap (typeAll max cap cs s) ∧ s.line.len ≤ (typeAll max cap cs s).line.len := by
  induction cs with
  | nil => exact fun s hv => ⟨hv, Nat.le_refl _⟩
  | cons c cs ih =>
    intro s hv
    unfold typeAll
    split
    · exact ⟨hv, Nat.le_refl _⟩
    next s' h =>
      obtain ⟨hvalid, hlen⟩ := ih s' (typeChar_valid hv h)
      exact ⟨hvalid, (typeChar_len_le h).trans hlen⟩

/-- While the screen has room, line and screen stay in step. -/
theorem typeAll_inStep (cs : List UInt8) : ∀ s : Readline χ, Valid cap s → InStep s →
    (typeAll max cap cs s).line.len ≤ max → ¬ OverFull max cap s →
    InStep (typeAll max cap cs s) := by
  induction cs with
  | nil => exact fun s _ hs _ _ => hs
  | cons c cs ih =>
    intro s hv hs hfit hn
    unfold typeAll at hfit ⊢
    split
    · exact hs
    next s' h =>
      rw [h] at hfit
      have hv' := typeChar_valid hv h
      have hfit' := ((typeAll_valid cs s' hv').2).trans hfit
      obtain ⟨hs', hn'⟩ := typeChar_inStep hv hs h hfit' hn
      exact ih s' hv' hs' hfit hn'

/-- A display that is full takes nothing more, whatever is typed into the buffer. -/
theorem typeAll_full (cs : List UInt8) : ∀ s : Readline χ, max ≤ s.vga.text.len →
    (typeAll max cap cs s).vga = s.vga ∧ s.line.cursor ≤ (typeAll max cap cs s).line.cursor := by
  induction cs with
  | nil => exact fun s _ => ⟨rfl, Nat.le_refl _⟩
  | cons c cs ih =>
    intro s hfull
    unfold typeAll
    split
    · exact ⟨rfl, Nat.le_refl _⟩
    next h =>
      obtain ⟨-, rfl⟩ := typeChar_some h
      have hkeep : (typed max s c).vga = s.vga := text_putc_full s.vga hfull c
      have hnext := ih (typed max s c) (by rw [hkeep]; exact hfull)
      rw [hkeep, typed_cursor] at hnext
      exact ⟨hnext.1, Nat.le_of_succ_le hnext.2⟩

/-- An overwrite of a full line moves one cursor and not the other. -/
theorem typeAll_slips {s : Readline χ} (hs : InStep s) (hn : OverFull max cap s) (c : UInt8)
    (cs : List UInt8) : ¬ InStep (typeAll max cap (c :: cs) s) := by
  obtain ⟨-, -, hroom, hlen⟩ := hn
  have hfull : max ≤ s.vga.text.len := by
    rw [← hs.text.len, hlen]
  have hkeep : (typed max s c).vga = s.vga := text_putc_full s.vga hfull c
  have htype : typeChar max cap s c = some (typed max s c) := by
    unfold typeChar tty_insert_char
    rw [if_neg (by omega)]
    rfl
  have hall : typeAll max cap (c :: cs) s = typeAll max cap cs (typed max s c) := by
    unfold typeAll
    rw [htype]
    cases cs <;> rfl
  rw [hall]
  obtain ⟨hvga, hcur⟩ := @typeAll_full χ max cap cs (typed max s c) (by rw [hkeep]; exact hfull)
  intro hafter
  have hsame := hafter.text.cursor
  have hstart := hs.text.cursor
  rw [hvga, hkeep] at hsame
  rw [typed_cursor] at hcur
  omega

end Typing

/-! ## What a key does -/

/-- An edit that the terminal and the display both make. -/
structure Edit (op : Line UInt8 → Line UInt8) : Prop where
  same : ∀ {l m}, l.Same m → (op l).Same (op m)
  inside : ∀ {l}, l.Inside → (op l).Inside
  len_le : ∀ l, (op l).len ≤ l.len

variable {key : Int}

section Keys

variable {χ : Type} {max cap : Nat} {hooks : Hooks χ}

/-- The key neither replaces the line nor types. -/
def Plain (hooks : Hooks χ) (cap : Nat) (s : Readline χ) (key : Int) : Prop :=
  ¬ Redraws hooks cap s key ∧ ¬ Types hooks key

/-- The ways in which the loop goes on after a key. -/
inductive KeyStep (max : Nat) (hooks : Hooks χ) (cap : Nat) (s : Readline χ) (key : Int) :
    Readline χ → Prop
  | idle : Plain hooks cap s key → KeyStep max hooks cap s key s
  | edit {op : Line UInt8 → Line UInt8} {v : Vga} : Plain hooks cap s key → Edit op →
      v.text = op s.vga.text → v.text_insert_mode = s.vga.text_insert_mode →
      KeyStep max hooks cap s key { s with line := op s.line, vga := v }
  | toggle : Plain hooks cap s key →
      KeyStep max hooks cap s key { s with
        insert_mode := if s.insert_mode ≠ 0 then 0 else 1, vga := pc_vga_text_toggle_insert s.vga }
  | kept {l : Line UInt8} {hooked : χ} : Plain hooks cap s key → s.line.Same l →
      KeyStep max hooks cap s key { s with line := l, hooked := hooked }
  | redraw {l : Line UInt8} {hooked : χ} : Redraws hooks cap s key → l.Inside → l.len < cap →
      KeyStep max hooks cap s key (redrawn max s l hooked)
  | types (c : UInt8) (cs : List UInt8) : Types hooks key →
      KeyStep max hooks cap s key (typeAll max cap (c :: cs) s)

/-- A key that types does not redraw. -/
theorem types_not_redraws {s : Readline χ} (h : Types hooks key) :
    ¬ Redraws hooks cap s key := by
  rintro (⟨rfl, -⟩ | ⟨rfl, -⟩ | ⟨rfl, hsome⟩)
  · simp [Types, KEY_UP, KEY_TAB] at h
  · simp [Types, KEY_DOWN, KEY_TAB] at h
  · rcases h with ⟨-, -, -, -, -, hne⟩ | ⟨-, hnone⟩
    · exact hne rfl
    · rw [hnone] at hsome
      cases hsome

/-- A key that is no arrow up or down, no tabulator and no character is plain. -/
theorem plain_of_key {s : Readline χ} (h : key ≠ KEY_UP ∧ key ≠ KEY_DOWN ∧
    key ≠ KEY_TAB ∧ (key ≤ 0 ∨ 128 ≤ key ∨ key = KEY_BACKSPACE)) : Plain hooks cap s key := by
  obtain ⟨hup, hdown, htab, htype⟩ := h
  constructor
  · rintro (⟨heq, -⟩ | ⟨heq, -⟩ | ⟨heq, -⟩)
    · exact hup heq
    · exact hdown heq
    · exact htab heq
  · rintro (⟨hpos, hlt, -, -, hne, -⟩ | ⟨heq, -⟩)
    · omega
    · exact htab heq

/-- A history key redraws the line or does nothing. -/
theorem historyKey_step (hh : hooks.Honest cap) {s : Readline χ} {direction : Int}
    (hkey : Redraws hooks cap s key ↔ historyAnswer hooks cap s direction ≠ 0)
    (htype : ¬ Types hooks key) :
    KeyStep max hooks cap s key (historyKey max hooks cap s direction) := by
  unfold historyKey
  unfold historyAnswer at hkey
  cases hhook : hooks.history_hook with
  | none =>
    rw [hhook] at hkey
    exact .idle ⟨fun h => hkey.mp h rfl, htype⟩
  | some h =>
    rw [hhook] at hkey
    dsimp only at hkey ⊢
    by_cases hrc : (h s.hooked direction cap s.line).1 = 0
    · rw [if_neg (not_not.mpr hrc)]
      exact .kept ⟨fun hr => hkey.mp hr hrc, htype⟩ (hh.kept h hhook _ _ _ hrc)
    rw [if_pos hrc]
    obtain ⟨hin, hlen⟩ := hh.recalled h hhook _ _ _ hrc
    exact .redraw (hkey.mpr hrc) hin hlen

theorem edit_deleteLeft : Edit Line.deleteLeft := ⟨.deleteLeft, .deleteLeft, Line.deleteLeft_len_le⟩

theorem edit_deleteAt : Edit Line.deleteAt := ⟨.deleteAt, .deleteAt, Line.deleteAt_len_le⟩

theorem edit_left : Edit Line.left := ⟨.left, .left, fun l => (Line.left_len l).le⟩

theorem edit_right : Edit Line.right := ⟨.right, .right, fun l => (Line.right_len l).le⟩

/-- One edit of the two lines, unless the cursor is at the edge. -/
theorem edit_step {s : Readline χ} (hp : Plain hooks cap s key) {c : Prop} [Decidable c]
    {op : Line UInt8 → Line UInt8} {v : Vga} (hop : Edit op) (htext : v.text = op s.vga.text)
    (hmode : v.text_insert_mode = s.vga.text_insert_mode) :
    KeyStep max hooks cap s key (if c then { s with line := op s.line, vga := v } else s) := by
  split
  · exact .edit hp hop htext hmode
  · exact .idle hp

theorem Reply.of_ite {c : Prop} [Decidable c] {a s' : Readline χ} {r : Reply χ}
    (h : (if c then .more a else r) = .more s') : c ∧ a = s' ∨ ¬ c ∧ r = .more s' := by grind

/-- The branches of the loop in the order of the source. -/
theorem readline_key_cases (hh : hooks.Honest cap) {s s' : Readline χ} (hv : Valid cap s)
    (h : readline_key max hooks cap s key = .more s') : KeyStep max hooks cap s key s' := by
  obtain ⟨hnone, rfl⟩ | ⟨hnone, h⟩ := Reply.of_ite h
  · exact .idle (plain_of_key (by rw [hnone]; decide))
  obtain ⟨hreset, rfl⟩ | ⟨hreset, h⟩ := Reply.of_ite h
  · exact .idle (plain_of_key (by rw [hreset]; decide))
  by_cases hintr : key = KEY_CTRL_C
  · rw [if_pos hintr] at h
    cases h
  rw [if_neg hintr] at h
  by_cases hline : key = KEY_NEWLINE
  · rw [if_pos hline] at h
    cases h
  rw [if_neg hline] at h
  obtain ⟨hback, rfl⟩ | ⟨hback, h⟩ := Reply.of_ite h
  · exact edit_step (plain_of_key (by rw [hback]; decide)) edit_deleteLeft (text_backspace_text _)
      (text_backspace_mode _)
  obtain ⟨hleft, rfl⟩ | ⟨hleft, h⟩ := Reply.of_ite h
  · exact edit_step (plain_of_key (by rw [hleft]; decide)) edit_left
      (text_left_text _) (text_left_mode _)
  obtain ⟨hright, rfl⟩ | ⟨hright, h⟩ := Reply.of_ite h
  · exact edit_step (plain_of_key (by rw [hright]; decide)) edit_right
      (text_right_text _) (text_right_mode _)
  obtain ⟨hdel, rfl⟩ | ⟨hdel, h⟩ := Reply.of_ite h
  · exact edit_step (plain_of_key (by rw [hdel]; decide)) edit_deleteAt (text_delete_text _)
      (text_delete_mode _)
  obtain ⟨hins, rfl⟩ | ⟨hins, h⟩ := Reply.of_ite h
  · exact .toggle (plain_of_key (by rw [hins]; decide))
  obtain ⟨hup, rfl⟩ | ⟨hup, h⟩ := Reply.of_ite h
  · grind [KEY_UP, KEY_DOWN, KEY_TAB, Types, Redraws, historyKey_step]
  obtain ⟨hdown, rfl⟩ | ⟨hdown, h⟩ := Reply.of_ite h
  · grind [KEY_UP, KEY_DOWN, KEY_TAB, Types, Redraws, historyKey_step]
  by_cases htab : key = KEY_TAB
  · rw [if_pos htab] at h
    cases hhook : hooks.tab_hook with
    | none =>
      rw [hhook] at h
      obtain rfl := Reply.more.inj h
      exact .types SPACE _ (.inr ⟨htab, hhook⟩)
    | some tab_hook =>
      rw [hhook] at h
      obtain rfl := Reply.more.inj h
      obtain ⟨hin, hlen⟩ := hh.completed tab_hook hhook s.hooked s.line hv.inside hv.room
      exact .redraw (.inr (.inr ⟨htab, by rw [hhook]; rfl⟩)) hin hlen
  rw [if_neg htab] at h
  obtain ⟨hchar, rfl⟩ | ⟨hchar, h⟩ := Reply.of_ite h
  · exact .types _ [] (.inl ⟨hchar.1, hchar.2, hintr, hline, hback, htab⟩)
  · obtain rfl := Reply.more.inj h
    exact .idle (plain_of_key ⟨hup, hdown, htab, by omega⟩)

/-- Only the end of the line and an interrupt end the loop. -/
theorem readline_key_more {s : Readline χ} (hintr : key ≠ KEY_CTRL_C) (hline : key ≠ KEY_NEWLINE) :
    ∃ s', readline_key max hooks cap s key = .more s' := by
  have hite : ∀ {c : Prop} [Decidable c] {a : Readline χ} {r : Reply χ}, (∃ s', r = .more s') →
      ∃ s', (if c then .more a else r) = .more s' := by grind
  unfold readline_key
  rw [if_neg hintr, if_neg hline]
  iterate 9 apply hite
  split
  · cases hooks.tab_hook with
    | none => exact ⟨_, rfl⟩
    | some tab_hook => exact ⟨_, rfl⟩
  · exact hite ⟨s, rfl⟩

end Keys

section Runs

variable {χ : Type} {max cap : Nat} {hooks : Hooks χ}

section

variable {s s' : Readline χ} {key : Int} (h : KeyStep max hooks cap s key s') (hv : Valid cap s)

include h hv

/-- Every key keeps the line within its buffer. -/
theorem KeyStep.valid : Valid cap s' := by
  cases h with
  | idle _ => exact hv
  | edit _ hop _ _ =>
    exact ⟨hop.inside hv.inside, Nat.lt_of_le_of_lt (hop.len_le _) hv.room, hv.mode⟩
  | toggle _ =>
    refine ⟨hv.inside, hv.room, ?_⟩
    split
    · exact .inl rfl
    · exact .inr rfl
  | kept _ hsame =>
    refine ⟨?_, ?_, hv.mode⟩
    · have hin := hv.inside
      unfold Line.Inside at hin ⊢
      rwa [hsame.cursor, hsame.len] at hin
    · have hroom := hv.room
      rwa [hsame.len] at hroom
  | redraw _ hin hlen => exact ⟨hin, hlen, hv.mode⟩
  | types c cs _ => exact (typeAll_valid (c :: cs) s hv).1

/-- One key keeps the two in step unless it slips. -/
theorem KeyStep.inStep_iff (hs : InStep s) (hfit : s'.line.len ≤ max) :
    InStep s' ↔ ¬ Slips max hooks cap s key := by
  have hplain : Plain hooks cap s key → ¬ Slips max hooks cap s key := by
    rintro ⟨hr, ht⟩ (⟨hr', -⟩ | ⟨ht', -⟩)
    · exact hr hr'
    · exact ht ht'
  cases h with
  | idle hp => exact iff_of_true hs (hplain hp)
  | edit hp hop htext hmode =>
    refine iff_of_true ⟨?_, hmode.trans hs.mode⟩ (hplain hp)
    rw [htext]
    exact hop.same hs.text
  | toggle hp =>
    refine iff_of_true ⟨hs.text, ?_⟩ (hplain hp)
    show (if s.vga.text_insert_mode ≠ 0 then 0 else 1) = _
    rw [hs.mode]
  | kept hp hsame => exact iff_of_true ⟨hsame.symm.trans hs.text, hs.mode⟩ (hplain hp)
  | @redraw l hooked hr hin hlen =>
    -- the display has the new line and inserts
    obtain ⟨htext, hmode⟩ := tty_redraw_line_spec hin hfit s.row s.col s.vga
    have htypes : ¬ Types hooks key := fun ht => types_not_redraws ht hr
    constructor
    · rintro hafter (⟨-, hzero⟩ | ⟨ht, -⟩)
      · have hm : (tty_redraw_line max l s.row s.col s.vga).text_insert_mode = s.insert_mode :=
          hafter.mode
        rw [hmode, hzero] at hm
        exact absurd hm (by decide)
      · exact htypes ht
    · intro hn
      refine ⟨htext, hmode.trans ?_⟩
      rcases hv.mode with hzero | hone
      · exact absurd (.inl ⟨hr, hzero⟩) hn
      · exact hone.symm
  | types c cs ht =>
    constructor
    · rintro hafter (⟨hr, -⟩ | ⟨-, hfull⟩)
      · exact types_not_redraws ht hr
      · exact typeAll_slips hs hfull c cs hafter
    · exact fun hn => typeAll_inStep (c :: cs) s hv hs hfit fun hfull => hn (.inr ⟨ht, hfull⟩)

end

theorem readlineLoop_more {s m : Readline χ} (h : readline_key max hooks cap s key = .more m)
    (keys : List Int) :
    readlineLoop max hooks cap (key :: keys) s = readlineLoop max hooks cap keys m := by
  rw [readlineLoop, h]

theorem readlineLoop_done {s m : Readline χ} {rc : Int}
    (h : readline_key max hooks cap s key = .done rc m) (keys : List Int) :
    readlineLoop max hooks cap (key :: keys) s = .done rc m := by
  rw [readlineLoop, h]

/-- The last key comes after all the others. -/
theorem readlineLoop_snoc {keys : List Int} : ∀ {s s' : Readline χ},
    readlineLoop max hooks cap (keys ++ [key]) s = .more s' ↔
      ∃ m, readlineLoop max hooks cap keys s = .more m ∧
        readline_key max hooks cap m key = .more s' := by
  induction keys with
  | nil =>
    intro s s'
    rw [nil_append]
    constructor
    · intro h
      cases hkey : readline_key max hooks cap s key with
      | more m =>
        rw [readlineLoop_more hkey] at h
        exact ⟨s, rfl, hkey.trans h⟩
      | done rc m =>
        rw [readlineLoop_done hkey] at h
        cases h
    · rintro ⟨m, hm, hstep⟩
      obtain rfl := Reply.more.inj hm
      exact readlineLoop_more hstep []
  | cons k keys ih =>
    intro s s'
    rw [cons_append]
    cases hkey : readline_key max hooks cap s k with
    | more m =>
      rw [readlineLoop_more hkey, readlineLoop_more hkey]
      exact ih
    | done rc m =>
      -- the line has ended before the last key
      grind [readlineLoop_done]

theorem start_valid (hcap : 0 < cap) (buf : Nat → UInt8) (v : Vga) (hooked : χ) :
    Valid cap (readlineStart buf v hooked) :=
  ⟨Nat.le_refl _, hcap, .inr rfl⟩

theorem start_inStep (buf : Nat → UInt8) (v : Vga) (hooked : χ) :
    InStep (readlineStart buf v hooked) :=
  ⟨⟨rfl, rfl, fun i hi => absurd hi (Nat.not_lt_zero i)⟩, rfl⟩

/-- The variables stay in range in every run. -/
theorem readlineLoop_valid (hh : hooks.Honest cap) (keys : List Int) : ∀ {s s' : Readline χ},
    Valid cap s → readlineLoop max hooks cap keys s = .more s' → Valid cap s' := by
  induction keys using reverseRecOn with
  | nil =>
    intro s s' hv h
    obtain rfl := Reply.more.inj h
    exact hv
  | append_singleton keys key ih =>
    intro s s' hv h
    obtain ⟨m, hm, hstep⟩ := readlineLoop_snoc.mp h
    have hvm := ih hv hm
    exact (readline_key_cases hh hvm hstep).valid hvm

/-- The terminal and the display are in step after every key exactly if no key slips: no
line is recalled or completed while overwriting, and no line that fills the display's copy
is overwritten. -/
theorem in_step_iff (hcap : 0 < cap) (hh : hooks.Honest cap) (buf : Nat → UInt8) (v : Vga)
    (hooked : χ) (keys : List Int)
    (hfit : ∀ n s, readlineLoop max hooks cap (keys.take n) (readlineStart buf v hooked) = .more s →
      s.line.len ≤ max) :
    (∀ n s, readlineLoop max hooks cap (keys.take n) (readlineStart buf v hooked) = .more s →
      InStep s) ↔
    ∀ n s key, readlineLoop max hooks cap (keys.take n) (readlineStart buf v hooked) = .more s →
      keys[n]? = some key → ¬ Slips max hooks cap s key := by
  have hvalid : ∀ n s, readlineLoop max hooks cap (keys.take n) (readlineStart buf v hooked) =
      .more s → Valid cap s :=
    fun n s h => readlineLoop_valid hh _ (start_valid hcap buf v hooked) h
  have hnext : ∀ n key, keys[n]? = some key → keys.take (n + 1) = keys.take n ++ [key] := by
    intro n key hkey
    rw [take_add_one, hkey]
    rfl
  constructor
  · intro hall n s key hs hkey hslip
    -- a key that slips does not end the loop
    have hgoes : key ≠ KEY_CTRL_C ∧ key ≠ KEY_NEWLINE := by
      rcases hslip with ⟨⟨rfl, -⟩ | ⟨rfl, -⟩ | ⟨rfl, -⟩, -⟩ | ⟨⟨-, -, hc, hl, -⟩ | ⟨rfl, -⟩, -⟩
      · decide
      · decide
      · decide
      · exact ⟨hc, hl⟩
      · decide
    obtain ⟨s', hstep⟩ : ∃ s', readline_key max hooks cap s key = .more s' :=
      readline_key_more hgoes.1 hgoes.2
    have hs' : readlineLoop max hooks cap (keys.take (n + 1)) (readlineStart buf v hooked) =
        .more s' := by grind [readlineLoop_snoc.mpr]
    have hv := hvalid n s hs
    exact ((readline_key_cases hh hv hstep).inStep_iff hv (hall n s hs) (hfit _ _ hs')).mp
      (hall _ _ hs') hslip
  · intro hnone n
    induction n with
    | zero =>
      intro s hs
      obtain rfl := Reply.more.inj hs
      exact start_inStep buf v hooked
    | succ n ih =>
      intro s' hs'
      cases hkey : keys[n]? with
      | none =>
        -- no key is left
        rw [take_add_one, hkey, Option.toList_none, append_nil] at hs'
        exact ih s' hs'
      | some key =>
        have hrun := hs'
        rw [hnext n key hkey] at hrun
        obtain ⟨m, hm, hstep⟩ := readlineLoop_snoc.mp hrun
        have hv := hvalid n m hm
        exact ((readline_key_cases hh hv hstep).inStep_iff hv (ih m hm) (hfit _ _ hs')).mpr
          (hnone n m key hm hkey)

/-- A buffer that fits the display's copy keeps every line within it. -/
theorem fits_of_cap (hcap : 0 < cap) (hh : hooks.Honest cap) (hle : cap ≤ max + 1)
    (buf : Nat → UInt8) (v : Vga) (hooked : χ) {keys : List Int} {s : Readline χ}
    (h : readlineLoop max hooks cap keys (readlineStart buf v hooked) = .more s) :
    s.line.len ≤ max := by
  have hroom := (readlineLoop_valid hh keys (start_valid hcap buf v hooked) h).room
  omega

end Runs

theorem Reply.more?_eq_some {χ : Type} {r : Reply χ} {s : Readline χ} (h : r.more? = some s) :
    r = .more s := by
  cases r with
  | more m => exact congrArg Reply.more (Option.some.inj h)
  | done rc m => cases h

/-- A history with the one line "hi". -/
def oneLine : History where
  g_shell_history := fun slot i =>
    if slot = 0 ∧ i = 0 then 0x68 else if slot = 0 ∧ i = 1 then 0x69 else 0
  g_shell_history_count := 1
  g_shell_history_head := 1
  g_shell_history_nav := -1
  g_shell_history_draft := fun _ => 0

/-- The kernel shell reads a line on a fresh screen. -/
def atPrompt : Readline History :=
  readlineStart (fun _ => 0)
    ⟨⟨fun _ => 0, 0, 0, 7⟩, ⟨fun _ => 0, 0, 0⟩, fun _ => 0, 1⟩ oneLine

/-- Insert, Up, Left and `x`: the terminal has overwritten the last character of the
recalled line, and the display has inserted one. -/
theorem recall_while_overwriting :
    ∃ s, readlineLoop 512 (shellHooks fun _ => none) SHELL_LINE_CAP
        [KEY_INSERT, KEY_UP, KEY_LEFT, 0x78] atPrompt = .more s ∧
      s.insert_mode = 0 ∧ s.vga.text_insert_mode = 1 ∧ s.line.len = 2 ∧ s.vga.text.len = 3 := by
  have hrun : (readlineLoop 512 (shellHooks fun _ => none) SHELL_LINE_CAP
      [KEY_INSERT, KEY_UP, KEY_LEFT, 0x78] atPrompt).more?.map (fun s =>
        (s.insert_mode, s.vga.text_insert_mode, s.line.len, s.vga.text.len)) =
      some (0, 1, 2, 3) := by
    decide +kernel
  obtain ⟨s, hs, hval⟩ := Option.map_eq_some_iff.mp hrun
  simp only [Prod.mk.injEq] at hval
  exact ⟨s, Reply.more?_eq_some hs, hval⟩

/-- Up, then Insert, Left and `x`: the recall comes while inserting. -/
theorem recall_while_inserting :
    ∃ s, readlineLoop 512 (shellHooks fun _ => none) SHELL_LINE_CAP
      [KEY_UP, KEY_INSERT, KEY_LEFT, 0x78] atPrompt = .more s ∧ InStep s := by
  have hhonest : (shellHooks fun _ => none).Honest SHELL_LINE_CAP := shellHooks_honest _ (by decide)
  have hrun : (readlineLoop 512 (shellHooks fun _ => none) SHELL_LINE_CAP
      [KEY_UP, KEY_INSERT, KEY_LEFT, 0x78] atPrompt).more?.isSome := by
    decide +kernel
  obtain ⟨s, hs⟩ := Option.isSome_iff_exists.mp hrun
  refine ⟨s, Reply.more?_eq_some hs, (in_step_iff (by decide) hhonest _ _ _
    [KEY_UP, KEY_INSERT, KEY_LEFT, 0x78] fun n s h =>
      fits_of_cap (by decide) hhonest (by decide) _ _ _ h).mpr ?_ 4 s (Reply.more?_eq_some hs)⟩
  intro n s key hs hkey hslip
  have hlen := (readlineLoop_valid hhonest _ (start_valid (by decide) _ _ _) hs).room
  rcases hslip with ⟨hr, hzero⟩ | ⟨-, -, -, -, hfull⟩
  · -- only the first key recalls, and the mode is then the one of the start
    match n with
    | 0 =>
      obtain rfl := Reply.more.inj hs
      exact absurd hzero (by decide)
    | 1 | 2 | 3 =>
      obtain rfl := Option.some.inj hkey
      rcases hr with ⟨heq, -⟩ | ⟨heq, -⟩ | ⟨heq, -⟩ <;> exact absurd heq (by decide)
    | n + 4 => cases hkey
  · rw [hfull] at hlen
    exact absurd hlen (by decide)

end System1.Tty
