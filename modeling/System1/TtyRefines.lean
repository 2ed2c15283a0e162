/-
The line editor of the terminal as a list with a cursor.

`Editor` is what a user sees of `tty_core_readline`: the characters of the line, where the
cursor stands, and whether a new character goes before the one under the cursor or over it.
Each key does to it what the key is for. The loops of the terminal move the bytes of a fixed
buffer instead; `readline_refines` says that the buffer holds the line of this editor after
every sequence of keys, and that it is what Enter and Ctrl-C return.
-/
import System1.TtyStep

set_option autoImplicit false

namespace System1.Tty

open System1.Lib Function List Line

/-- `tty_core_readline`: no hooks. -/
def tty_core_readline (VGA_TEXT_PATH_MAX cap : Nat) (keys : List Int) (buf : Nat → UInt8)
    (v : Vga) : Option (Reply Unit) :=
  tty_core_readline_ex VGA_TEXT_PATH_MAX ⟨none, none⟩ cap keys buf v ()

/-- A line with a cursor in it. -/
structure Editor where
  text : List UInt8
  cursor : Nat
  insert : Bool

namespace Editor

/-- A character before the one under the cursor or over it; a full line takes none. -/
def put (cap : Nat) (e : Editor) (c : UInt8) : Editor :=
  if cap - 1 ≤ e.text.length then e
  else
    { e with
      text := e.text.take e.cursor ++ c :: e.text.drop (if e.insert then e.cursor else e.cursor + 1)
      cursor := e.cursor + 1 }

/-- What a key does. -/
def key (cap : Nat) (e : Editor) (key : Int) : Editor :=
  if key = KEY_BACKSPACE then
    { e with text := e.text.take (e.cursor - 1) ++ e.text.drop e.cursor, cursor := e.cursor - 1 }
  else if key = KEY_LEFT then { e with cursor := e.cursor - 1 }
  else if key = KEY_RIGHT then { e with cursor := min (e.cursor + 1) e.text.length }
  else if key = KEY_DELETE then
    { e with text := e.text.take e.cursor ++ e.text.drop (e.cursor + 1) }
  else if key = KEY_INSERT then { e with insert := !e.insert }
  else if key = KEY_TAB then [SPACE, SPACE, SPACE, SPACE].foldl (put cap) e
  else if 0 < key ∧ key < 128 then put cap e (UInt8.ofNat key.toNat)
  else e

end Editor

/-- The editor that the variables of the terminal hold. -/
def Readline.editor (s : Readline Unit) : Editor :=
  ⟨s.line.text, s.line.cursor, s.insert_mode ≠ 0⟩

/-! ## The keys -/

variable {max cap : Nat} {s s' : Readline Unit}

/-- A typed byte is put at the abstract cursor. -/
theorem editor_put (hv : Valid cap s) (hroom : s.line.len < cap - 1) (c : UInt8) :
    (typed max s c).editor = s.editor.put cap c := by
  have hfree : ¬ cap - 1 ≤ s.editor.text.length := by
    simp only [Readline.editor, text_length]
    omega
  rw [Editor.put, if_neg hfree]
  simp only [Readline.editor, typed, text_put hv.inside, put_cursor]
  by_cases hmode : s.insert_mode = 0 <;> simp [hmode]

/-- Typing a text puts its bytes one by one. -/
theorem editor_typeAll (hv : Valid cap s) (cs : List UInt8) :
    (typeAll max cap cs s).editor = cs.foldl (Editor.put cap) s.editor := by
  induction cs generalizing s with
  | nil => rfl
  | cons c cs ih =>
    unfold typeAll
    cases hc : typeChar max cap s c with
    | some s' =>
      rw [foldl_cons, ← editor_put hv (typeChar_some hc).1 c, ← (typeChar_some hc).2]
      exact ih (typeChar_valid hv hc)
    | none =>
      -- a full line takes none of the rest either
      have hfull : cap - 1 ≤ s.editor.text.length := by
        by_contra hroom
        simp only [Readline.editor, text_length] at hroom
        grind [typeChar, tty_insert_char]
      have hput : ∀ c, s.editor.put cap c = s.editor := fun c => if_pos hfull
      exact (foldl_fixed' hput _).symm

/-- An edit that does nothing where the terminal does not make it. -/
theorem editor_edit (op : Line UInt8 → Line UInt8) {c : Prop} [Decidable c] {v : Vga}
    (hnone : ¬ c → op s.line = s.line) :
    (if c then { s with line := op s.line, vga := v } else s).editor =
      ⟨(op s.line).text, (op s.line).cursor, s.insert_mode ≠ 0⟩ := by
  split
  · rfl
  · next hc => rw [hnone hc, Readline.editor]

/-- Every key that ends no line does to the abstract editor what its name says. -/
theorem editor_key (hv : Valid cap s) {k : Int} (hintr : k ≠ KEY_CTRL_C) (hline : k ≠ KEY_NEWLINE)
    (h : readline_key max ⟨none, none⟩ cap s k = .more s') : s'.editor = s.editor.key cap k := by
  have hin : s.line.cursor ≤ s.line.len := hv.inside
  -- the branches in the order of the source
  obtain ⟨rfl, rfl⟩ | ⟨-, h⟩ := Reply.of_ite h
  · rfl
  obtain ⟨rfl, rfl⟩ | ⟨-, h⟩ := Reply.of_ite h
  · rfl
  rw [if_neg hintr, if_neg hline] at h
  unfold Editor.key
  obtain ⟨hback, rfl⟩ | ⟨hback, h⟩ := Reply.of_ite h
  · rw [if_pos hback, editor_edit Line.deleteLeft fun hc => if_pos (by omega),
      text_deleteLeft hin, deleteLeft_cursor]
    rfl
  rw [if_neg hback]
  obtain ⟨hleft, rfl⟩ | ⟨hleft, h⟩ := Reply.of_ite h
  · rw [if_pos hleft, editor_edit Line.left fun hc => if_neg hc, text_left, left_cursor]
    rfl
  rw [if_neg hleft]
  obtain ⟨hright, rfl⟩ | ⟨hright, h⟩ := Reply.of_ite h
  · rw [if_pos hright, editor_edit Line.right fun hc => if_neg hc, text_right,
      right_cursor hin, ← text_length]
    rfl
  rw [if_neg hright]
  obtain ⟨hdel, rfl⟩ | ⟨hdel, h⟩ := Reply.of_ite h
  · rw [if_pos hdel, editor_edit Line.deleteAt fun hc => if_pos (by omega), text_deleteAt,
      deleteAt_cursor]
    rfl
  rw [if_neg hdel]
  obtain ⟨hins, rfl⟩ | ⟨hins, h⟩ := Reply.of_ite h
  · rw [if_pos hins]
    by_cases hmode : s.insert_mode = 0 <;> simp [Readline.editor, hmode]
  rw [if_neg hins]
  obtain ⟨rfl, rfl⟩ | ⟨-, h⟩ := Reply.of_ite h
  · rfl
  obtain ⟨rfl, rfl⟩ | ⟨-, h⟩ := Reply.of_ite h
  · rfl
  by_cases htab : k = KEY_TAB
  · grind [editor_typeAll]
  rw [if_neg htab] at h ⊢
  obtain ⟨hchar, rfl⟩ | ⟨hchar, h⟩ := Reply.of_ite h
  · rw [if_pos hchar]
    exact editor_typeAll hv [UInt8.ofNat k.toNat]
  · rw [if_neg hchar, ← Reply.more.inj h]

theorem honest_none : Hooks.Honest (⟨none, none⟩ : Hooks Unit) cap := by
  constructor <;> exact fun _ h => nomatch h

variable {keys : List Int} (hkeys : ∀ k ∈ keys, k ≠ KEY_CTRL_C ∧ k ≠ KEY_NEWLINE)

include hkeys

/-- The keys before the one that ends the line. -/
theorem editor_keys (hv : Valid cap s) (rest : List Int) :
    ∃ s', Valid cap s' ∧ s'.editor = keys.foldl (Editor.key cap) s.editor ∧
      readlineLoop max ⟨none, none⟩ cap (keys ++ rest) s =
        readlineLoop max ⟨none, none⟩ cap rest s' := by
  induction keys generalizing s with
  | nil => exact ⟨s, hv, rfl, rfl⟩
  | cons k keys ih =>
    obtain ⟨⟨hintr, hline⟩, hkeys⟩ := forall_mem_cons.mp hkeys
    have hmore : ∃ s₁, readline_key max ⟨none, none⟩ cap s k = .more s₁ :=
      readline_key_more hintr hline
    obtain ⟨s₁, hstep⟩ := hmore
    obtain ⟨s', hs', heq, hloop⟩ := ih hkeys ((readline_key_cases honest_none hv hstep).valid hv)
    refine ⟨s', hs', ?_, ?_⟩
    · rw [heq, foldl_cons, editor_key hv hintr hline hstep]
    · rw [cons_append, readlineLoop, hstep]
      exact hloop

/-- `tty_core_readline` keeps the line of the list editor in its buffer, with the cursor in
it and room for a NUL. Enter returns that line with its length, and Ctrl-C an empty one. -/
theorem readline_refines (hcap : 0 < cap) (buf : Nat → UInt8) (v : Vga) (rest : List Int) :
    let e := keys.foldl (Editor.key cap) ⟨[], 0, true⟩
    (∃ s, tty_core_readline max cap keys buf v = some (.more s) ∧ s.line.text = e.text ∧
      s.line.cursor = e.cursor ∧ s.line.cursor ≤ s.line.len ∧ s.line.len ≤ cap - 1) ∧
    (∃ s, tty_core_readline max cap (keys ++ KEY_NEWLINE :: rest) buf v =
        some (.done e.text.length s) ∧
      (range e.text.length).map s.line.data = e.text ∧ s.line.data e.text.length = 0) ∧
    ∃ s, tty_core_readline max cap (keys ++ KEY_CTRL_C :: rest) buf v = some (.done 0 s) ∧
      s.line.data 0 = 0 := by
  have hrun : ∀ rest, ∃ s, Valid cap s ∧ s.editor = keys.foldl (Editor.key cap) ⟨[], 0, true⟩ ∧
      tty_core_readline max cap (keys ++ rest) buf v =
        some (readlineLoop max ⟨none, none⟩ cap rest s) := by
    intro rest
    obtain ⟨s, hs, heq, hloop⟩ := editor_keys hkeys (start_valid hcap buf v ()) rest
    exact ⟨s, hs, heq, (if_neg (by omega)).trans (congrArg some hloop)⟩
  refine ⟨?_, ?_, ?_⟩
  · obtain ⟨s, hs, heq, hloop⟩ := hrun []
    rw [append_nil] at hloop
    rw [← heq]
    exact ⟨s, hloop, rfl, rfl, hs.inside, Nat.le_sub_one_of_lt hs.room⟩
  · obtain ⟨s, hs, heq, hloop⟩ := hrun (KEY_NEWLINE :: rest)
    have hlen : s.editor.text.length = s.line.len := text_length s.line
    rw [← heq, hloop, hlen]
    refine ⟨_, rfl, ?_, update_self ..⟩
    exact map_congr_left fun i hi => update_of_ne (Nat.ne_of_lt (mem_range.mp hi)) ..
  · obtain ⟨s, hs, heq, hloop⟩ := hrun (KEY_CTRL_C :: rest)
    rw [hloop]
    exact ⟨_, rfl, update_self 0 0 s.line.data⟩

omit hkeys in
/-- The keys `b`, left and `a`, in a buffer of four bytes. -/
theorem readline_refines_ab :
    ∃ s, tty_core_readline 2000 4 ([0x62, KEY_LEFT, 0x61] ++ [KEY_NEWLINE]) (fun _ => 0)
        atPrompt.vga = some (.done 2 s) ∧
      (range 2).map s.line.data = [0x61, 0x62] ∧ s.line.data 2 = 0 :=
  (readline_refines (by decide) (by decide) (fun _ => 0) atPrompt.vga []).2.1

end System1.Tty
