/-
The text console of the PC, `src/kernel/drivers/pc/vga_text.c`.

The driver keeps a copy of the line being edited (`text`, the source's `text_data`,
`text_len` and `text_cursor`) with an insert mode of its own, and draws the line anew after
each change of the text, recording in `text_path` where on the screen each character went.
Drawing reads the line and never changes it: `vga_text_rerender` writes the screen and the
path only, so what an entry point does to the line is the edit of `Lib.LineEdit` it makes.

`VGA_TEXT_PATH_MAX` is a parameter, since the driver is built twice: with the 2000 cells of
the screen in the kernel and with 512 in the loadable module.
-/
import System1.Base
import System1.Lib.LineEdit

set_option autoImplicit false

namespace System1.Tty

open System1.Lib Function

def VGA_WIDTH : Nat := 80
def VGA_HEIGHT : Nat := 25

def u16 (n : Nat) : Nat := n % 2 ^ 16

/-- The memory at 0xB8000, the position and the colour. -/
structure Screen where
  VGA : Nat → UInt16
  row : Nat
  col : Nat
  color : UInt8

/-- A character in the current colour. -/
def Screen.cell (s : Screen) (c : UInt8) : UInt16 := (s.color.toUInt16 <<< 8) ||| c.toUInt16

def SPACE : UInt8 := 0x20

/-- The row loop and the column loop of `vga_scroll_up`, and the loop that blanks the last
row. -/
def vga_scroll_up (s : Screen) : Screen :=
  let moved := (List.range' 1 (VGA_HEIGHT - 1)).foldl (fun mem r =>
    (List.range VGA_WIDTH).foldl (fun mem c =>
      update mem ((r - 1) * VGA_WIDTH + c) (mem (r * VGA_WIDTH + c))) mem) s.VGA
  { s with VGA := (List.range VGA_WIDTH).foldl (fun mem c =>
      update mem ((VGA_HEIGHT - 1) * VGA_WIDTH + c) (s.cell SPACE)) moved }

def vga_ensure_row_visible (s : Screen) : Screen :=
  if s.row ≥ VGA_HEIGHT then { vga_scroll_up s with row := VGA_HEIGHT - 1 } else s

def vga_cursor_pos_get (s : Screen) : Nat := u16 (s.row * VGA_WIDTH + s.col)

def vga_cursor_pos_set (s : Screen) (pos : Nat) : Screen :=
  { s with row := pos / VGA_WIDTH, col := pos % VGA_WIDTH }

def pc_vga_set_cursor (s : Screen) (new_row new_col : Nat) : Screen :=
  { s with row := new_row % VGA_HEIGHT, col := new_col % VGA_WIDTH }

def pc_vga_putc_at (s : Screen) (at_row at_col : Nat) (c : UInt8) : Screen :=
  let r := at_row % VGA_HEIGHT
  let ccol := at_col % VGA_WIDTH
  { s with VGA := update s.VGA (r * VGA_WIDTH + ccol) (s.cell c) }

def NEWLINE : UInt8 := 0x0A

def pc_vga_putc (s : Screen) (c : UInt8) : Screen :=
  if c = NEWLINE then vga_ensure_row_visible { s with col := 0, row := u16 (s.row + 1) }
  else
    let s := { s with
      VGA := update s.VGA (s.row * VGA_WIDTH + s.col) (s.cell c), col := u16 (s.col + 1) }
    vga_ensure_row_visible
      (if s.col ≥ VGA_WIDTH then { s with col := 0, row := u16 (s.row + 1) } else s)

/-- The driver's variables. -/
structure Vga where
  screen : Screen
  text : Line UInt8
  text_path : Nat → Nat
  text_insert_mode : UInt8

/-- The loop of `vga_text_rerender` over the line, from character `i` with `n` to go. -/
def renderLoop (text_data : Nat → UInt8) (i : Nat) :
    Nat → Screen × (Nat → Nat) → Screen × (Nat → Nat)
  | 0, p => p
  | n + 1, (s, text_path) =>
    let s := pc_vga_putc s (text_data i)
    renderLoop text_data (i + 1) n (s, update text_path (i + 1) (vga_cursor_pos_get s))

def vga_text_rerender (v : Vga) : Vga :=
  let blanked := (List.range' (v.text_path 0) (VGA_WIDTH * VGA_HEIGHT - v.text_path 0)).foldl
    (fun s pos => pc_vga_putc_at s (pos / VGA_WIDTH) (pos % VGA_WIDTH) SPACE) v.screen
  let s := vga_cursor_pos_set blanked (v.text_path 0)
  let drawn := renderLoop v.text.data 0 v.text.len
    (s, update v.text_path 0 (vga_cursor_pos_get s))
  { v with screen := vga_cursor_pos_set drawn.1 (drawn.2 v.text.cursor), text_path := drawn.2 }

def pc_vga_text_begin (v : Vga) (start_row start_col : Nat) : Vga :=
  let s := pc_vga_set_cursor v.screen start_row start_col
  vga_text_rerender
    { screen := s
      text := { v.text with len := 0, cursor := 0 }
      text_path := update v.text_path 0 (vga_cursor_pos_get s)
      text_insert_mode := 1 }

section

variable (VGA_TEXT_PATH_MAX : Nat)

def pc_vga_text_putc (v : Vga) (c : UInt8) : Vga :=
  if v.text.len ≥ VGA_TEXT_PATH_MAX then v
  else vga_text_rerender { v with text := v.text.put (v.text_insert_mode = 0) c }

end

def pc_vga_text_backspace (v : Vga) : Vga :=
  if v.text.cursor = 0 then v else vga_text_rerender { v with text := v.text.deleteLeft }

/-- `pc_vga_text_left` and `pc_vga_text_right` once the cursor has moved. -/
def showCursor (v : Vga) : Vga :=
  { v with screen := vga_cursor_pos_set v.screen (v.text_path v.text.cursor) }

def pc_vga_text_left (v : Vga) : Vga :=
  if v.text.cursor > 0 then showCursor { v with text := v.text.left } else v

def pc_vga_text_right (v : Vga) : Vga :=
  if v.text.cursor < v.text.len then showCursor { v with text := v.text.right } else v

def pc_vga_text_delete (v : Vga) : Vga :=
  if v.text.cursor ≥ v.text.len then v
  else vga_text_rerender { v with text := v.text.deleteAt }

def pc_vga_text_toggle_insert (v : Vga) : Vga :=
  { v with text_insert_mode := if v.text_insert_mode ≠ 0 then 0 else 1 }

/-! ## The line of the driver -/

section

variable (v : Vga)

theorem text_putc_full {max : Nat} (h : max ≤ v.text.len) (c : UInt8) :
    pc_vga_text_putc max v c = v := if_pos h

theorem text_putc_text {max : Nat} (h : v.text.len < max) (c : UInt8) :
    (pc_vga_text_putc max v c).text = v.text.put (v.text_insert_mode = 0) c := by
  unfold pc_vga_text_putc
  rw [if_neg (by omega)]
  rfl

theorem text_putc_mode (max : Nat) (c : UInt8) :
    (pc_vga_text_putc max v c).text_insert_mode = v.text_insert_mode := by
  unfold pc_vga_text_putc
  split <;> rfl

theorem text_backspace_text : (pc_vga_text_backspace v).text = v.text.deleteLeft := by
  unfold pc_vga_text_backspace Line.deleteLeft
  split <;> rfl

theorem text_backspace_mode : (pc_vga_text_backspace v).text_insert_mode = v.text_insert_mode := by
  unfold pc_vga_text_backspace
  split <;> rfl

theorem text_left_text : (pc_vga_text_left v).text = v.text.left := by
  unfold pc_vga_text_left Line.left
  split <;> rfl

theorem text_left_mode : (pc_vga_text_left v).text_insert_mode = v.text_insert_mode := by
  unfold pc_vga_text_left
  split <;> rfl

theorem text_right_text : (pc_vga_text_right v).text = v.text.right := by
  unfold pc_vga_text_right Line.right
  split <;> rfl

theorem text_right_mode : (pc_vga_text_right v).text_insert_mode = v.text_insert_mode := by
  unfold pc_vga_text_right
  split <;> rfl

theorem text_delete_text : (pc_vga_text_delete v).text = v.text.deleteAt := by
  unfold pc_vga_text_delete Line.deleteAt
  split <;> rfl

theorem text_delete_mode : (pc_vga_text_delete v).text_insert_mode = v.text_insert_mode := by
  unfold pc_vga_text_delete
  split <;> rfl

end

end System1.Tty
