/-
The line editor of the terminal, `src/kernel/core/tty/tty_core.c`.

The terminal edits a buffer of its caller and tells the display, key by key, to do the same
to the copy the display keeps. `readline_key` is the body of the loop of
`tty_core_readline_ex`, and the loop runs it over the keys that come in until one of them
ends the line. The hooks of the caller are parameters with a state of their own; what is
asked of them is `Hooks.Honest`.

The serial copy of the output, the idle instruction while no key is there and the signal of
Ctrl-Alt-Del change nothing here and are left out.
-/
import System1.VgaText

set_option autoImplicit false

namespace System1.Tty

open System1.Lib

def KEY_NONE : Int := 0
def KEY_LEFT : Int := 0x80
def KEY_RIGHT : Int := 0x81
def KEY_INSERT : Int := 0x82
def KEY_DELETE : Int := 0x83
def KEY_UP : Int := 0x84
def KEY_DOWN : Int := 0x85
def KEY_CTRL_ALT_DEL : Int := 0x86
def KEY_CTRL_C : Int := 0x03
def KEY_NEWLINE : Int := 0x0A
def KEY_BACKSPACE : Int := 0x08
def KEY_TAB : Int := 0x09

/-- `tty_readline_hooks_t` without its `ctx`; `χ` is what the hooks keep between calls. The
history hook answers whether it has replaced the line. -/
structure Hooks (χ : Type) where
  tab_hook : Option (χ → Nat → Line UInt8 → Line UInt8 × χ)
  history_hook : Option (χ → Int → Nat → Line UInt8 → Int × Line UInt8 × χ)

/-- The variables of `tty_core_readline_ex`: the caller's buffer with `len` and `cursor`,
and the display below it. -/
structure Readline (χ : Type) where
  line : Line UInt8
  insert_mode : UInt8
  row : Nat
  col : Nat
  vga : Vga
  hooked : χ

/-- After a key the loop goes on or the call returns. -/
inductive Reply (χ : Type)
  | more (s : Readline χ)
  | done (rc : Int) (s : Readline χ)

/-- The state in which the loop goes on. -/
def Reply.more? {χ : Type} : Reply χ → Option (Readline χ)
  | .more s => some s
  | .done _ _ => none

section

variable {χ : Type} (VGA_TEXT_PATH_MAX : Nat) (hooks : Hooks χ) (cap : Nat)

/-- Nothing where the source returns 0. -/
def tty_insert_char (l : Line UInt8) (insert_mode : UInt8) (c : UInt8) : Option (Line UInt8) :=
  if cap = 0 ∨ l.len ≥ cap - 1 then none else some (l.put (insert_mode = 0) c)

/-- `n` calls of `display_text_putc` from `buf[i]` on. -/
def typeLoop (buf : Nat → UInt8) (i : Nat) : Nat → Vga → Vga
  | 0, v => v
  | n + 1, v => typeLoop buf (i + 1) n (pc_vga_text_putc VGA_TEXT_PATH_MAX v (buf i))

def leftLoop : Nat → Vga → Vga
  | 0, v => v
  | n + 1, v => leftLoop n (pc_vga_text_left v)

def tty_redraw_line (l : Line UInt8) (row col : Nat) (v : Vga) : Vga :=
  leftLoop (l.len - l.cursor)
    (typeLoop VGA_TEXT_PATH_MAX l.data 0 l.len (pc_vga_text_begin v row col))

/-- The hook has the line, and the display is drawn from it. -/
def redrawn (s : Readline χ) (l : Line UInt8) (hooked : χ) : Readline χ :=
  { s with
    line := l, hooked := hooked, vga := tty_redraw_line VGA_TEXT_PATH_MAX l s.row s.col s.vga }

/-- One character typed into the buffer and, if there was room, into the display. -/
def typeChar (s : Readline χ) (c : UInt8) : Option (Readline χ) :=
  match tty_insert_char cap s.line s.insert_mode c with
  | none => none
  | some l => some { s with line := l, vga := pc_vga_text_putc VGA_TEXT_PATH_MAX s.vga c }

/-- Characters typed until one is refused. -/
def typeAll : List UInt8 → Readline χ → Readline χ
  | [], s => s
  | c :: cs, s =>
    match typeChar VGA_TEXT_PATH_MAX cap s c with
    | none => s
    | some s => typeAll cs s

/-- The two branches of the arrows up and down. -/
def historyKey (s : Readline χ) (direction : Int) : Readline χ :=
  match hooks.history_hook with
  | none => s
  | some history_hook =>
    match history_hook s.hooked direction cap s.line with
    | (rc, l, hooked) =>
      if rc ≠ 0 then redrawn VGA_TEXT_PATH_MAX s l hooked
      else { s with line := l, hooked := hooked }

def putScreen (s : Readline χ) (c : UInt8) : Readline χ :=
  { s with vga := { s.vga with screen := pc_vga_putc s.vga.screen c } }

/-- The body of the loop of `tty_core_readline_ex` after `input_take_key`. -/
def readline_key (s : Readline χ) (key : Int) : Reply χ :=
  if key = KEY_NONE then .more s
  else if key = KEY_CTRL_ALT_DEL then .more s
  else if key = KEY_CTRL_C then
    let s := { s with line := { s.line with data := Function.update s.line.data 0 0 } }
    .done 0 (putScreen (putScreen (putScreen s 0x5E) 0x43) NEWLINE)
  else if key = KEY_NEWLINE then
    let s := { s with line := { s.line with data := Function.update s.line.data s.line.len 0 } }
    .done s.line.len (putScreen s NEWLINE)
  else if key = KEY_BACKSPACE then
    .more (if s.line.cursor > 0 then
      { s with line := s.line.deleteLeft, vga := pc_vga_text_backspace s.vga } else s)
  else if key = KEY_LEFT then
    .more (if s.line.cursor > 0 then
      { s with line := s.line.left, vga := pc_vga_text_left s.vga } else s)
  else if key = KEY_RIGHT then
    .more (if s.line.cursor < s.line.len then
      { s with line := s.line.right, vga := pc_vga_text_right s.vga } else s)
  else if key = KEY_DELETE then
    .more (if s.line.cursor < s.line.len then
      { s with line := s.line.deleteAt, vga := pc_vga_text_delete s.vga } else s)
  else if key = KEY_INSERT then
    .more { s with
      insert_mode := if s.insert_mode ≠ 0 then 0 else 1, vga := pc_vga_text_toggle_insert s.vga }
  else if key = KEY_UP then .more (historyKey VGA_TEXT_PATH_MAX hooks cap s (-1))
  else if key = KEY_DOWN then .more (historyKey VGA_TEXT_PATH_MAX hooks cap s 1)
  else if key = KEY_TAB then
    match hooks.tab_hook with
    | some tab_hook =>
      match tab_hook s.hooked cap s.line with
      | (l, hooked) => .more (redrawn VGA_TEXT_PATH_MAX s l hooked)
    | none => .more (typeAll VGA_TEXT_PATH_MAX cap (List.replicate 4 SPACE) s)
  else if 0 < key ∧ key < 128 then
    .more (typeAll VGA_TEXT_PATH_MAX cap [UInt8.ofNat key.toNat] s)
  else .more s

/-- The loop, over the keys that `input_take_key` hands out. -/
def readlineLoop : List Int → Readline χ → Reply χ
  | [], s => .more s
  | key :: keys, s =>
    match readline_key VGA_TEXT_PATH_MAX hooks cap s key with
    | .more s => readlineLoop keys s
    | .done rc s => .done rc s

/-- The variables when the loop is entered. -/
def readlineStart (buf : Nat → UInt8) (v : Vga) (hooked : χ) : Readline χ where
  line := ⟨Function.update buf 0 0, 0, 0⟩
  insert_mode := 1
  row := v.screen.row
  col := v.screen.col
  vga := pc_vga_text_begin v v.screen.row v.screen.col
  hooked := hooked

/-- `tty_core_readline_ex` with the keys that come in; a call without room for a NUL
returns 0 at once. -/
def tty_core_readline_ex (keys : List Int) (buf : Nat → UInt8) (v : Vga) (hooked : χ) :
    Option (Reply χ) :=
  if cap = 0 then none
  else some (readlineLoop VGA_TEXT_PATH_MAX hooks cap keys (readlineStart buf v hooked))

end

/-- What is asked of hooks: one that answers 0 has left the line alone, and a new line fits
the buffer with the cursor in it. -/
structure Hooks.Honest {χ : Type} (hooks : Hooks χ) (cap : Nat) : Prop where
  kept : ∀ h, hooks.history_hook = some h → ∀ c d l, (h c d cap l).1 = 0 → l.Same (h c d cap l).2.1
  recalled : ∀ h, hooks.history_hook = some h → ∀ c d l, (h c d cap l).1 ≠ 0 →
    (h c d cap l).2.1.Inside ∧ (h c d cap l).2.1.len < cap
  completed : ∀ h, hooks.tab_hook = some h → ∀ c l, l.Inside → l.len < cap →
    (h c cap l).1.Inside ∧ (h c cap l).1.len < cap

end System1.Tty
