/-
AdaText, the line editor `src/userland/smu/editor/adatext.c`.

The text is one array of bytes. A line is found by counting newlines, and bytes are put in
and taken out by moving the rest of the array. The text can be read as a list of lines
(`lines`, the text split at its newlines without a final empty piece). A line that is
appended is added to this list only if the last line has a newline; otherwise it becomes
part of the last line (`append_adds_line_iff`).

Two operations give up the old text before they can fail: `replace_line` has deleted the
line when the new one is refused, and `load_file` has emptied the buffer when the file
cannot be read. A write command behind such a failure stores what is left under the old
name (`failure_loses_nothing_iff`).

Of the commands only `w` is here, without what it prints. What `open`, `read`, `write` and
`close` answer is a parameter.
-/
import System1.ShellHooks
import System1.Msh

set_option autoImplicit false

namespace System1.AdaText

open Function List
open Msh (Text ascii)
open Tty (NEWLINE)

def BUFFER_CAP : Nat := 3072
def INPUT_CAP : Nat := 256
def PATH_CAP : Nat := 96

/-- The globals of the editor; `g_path` as the string it holds. -/
structure Editor where
  g_text : Nat → UInt8
  g_text_len : Nat
  g_path : Text
  g_dirty : Bool

/-- The text of the editor. -/
def Editor.text (s : Editor) : Text := (range s.g_text_len).map s.g_text

/-! ## Lines -/

/-- The loop of `line_count`: the newlines that have something behind them. -/
def countLoop : Text → Nat
  | [] => 0
  | c :: rest => (if c = NEWLINE ∧ rest ≠ [] then 1 else 0) + countLoop rest

def line_count (text : Text) : Nat := if text = [] then 0 else 1 + countLoop text

/-- The first loop of `line_bounds`, on what is behind position `i`. -/
def seekLoop (line current i : Nat) : Text → Nat × Nat
  | [] => (current, i)
  | c :: rest =>
    if current < line then seekLoop line (if c = NEWLINE then current + 1 else current) (i + 1) rest
    else (current, i)

/-- `line_bounds`: where the line starts, where it ends, and where the next one starts. -/
def line_bounds (text : Text) (line : Nat) : Option (Nat × Nat × Nat) :=
  if line = 0 ∨ text = [] then none
  else
    match seekLoop line 1 0 text with
    | (current, i) =>
      if current ≠ line ∨ i ≥ text.length then none
      else
        let stop := i + ((text.drop i).takeWhile (· ≠ NEWLINE)).length
        some (i, stop, if stop < text.length then stop + 1 else stop)

/-! ## Edits -/

/-- `n` rounds of `for (i = at + n; i > at; --i) f[i + size - 1] = f[i - 1];` -/
def moveUp (f : Nat → UInt8) (pos size : Nat) : Nat → (Nat → UInt8)
  | 0 => f
  | n + 1 => moveUp (update f (pos + n + size) (f (pos + n))) pos size n

/-- What an operation returns: nothing where it succeeds and otherwise what it prints, and
the state it leaves. -/
abbrev Result := Option Text × Editor

def insert_bytes (s : Editor) (pos : Nat) (data : Text) : Result :=
  let size := data.length
  if pos > s.g_text_len ∨ s.g_text_len + size ≥ BUFFER_CAP then
    (some (ascii "adatext: buffer full\n"), s)
  else
    let moved := moveUp s.g_text pos size (s.g_text_len + 1 - pos)
    let stored := (range size).foldl (fun f i => update f (pos + i) (data.getD i 0)) moved
    (none, { s with
      g_text := update stored (s.g_text_len + size) 0
      g_text_len := s.g_text_len + size
      g_dirty := true })

def insert_line (s : Editor) (line : Nat) (text : Text) : Result :=
  let count := line_count s.text
  if line = 0 ∨ line > count + 1 then (some (ascii "adatext: invalid line number\n"), s)
  else if text.length + 1 ≥ INPUT_CAP + 1 then (some (ascii "adatext: line too long\n"), s)
  else if line ≤ count then
    match line_bounds s.text line with
    | none => (some [], s)
    | some (pos, _) => insert_bytes s pos (text ++ [NEWLINE])
  else insert_bytes s s.g_text_len (text ++ [NEWLINE])

def append_line (s : Editor) (text : Text) : Result := insert_line s (line_count s.text + 1) text

/-- The second half of `delete_line`. -/
def removeBytes (s : Editor) (start remove_end : Nat) : Editor :=
  { s with
    g_text := (range (s.g_text_len + 1 - remove_end)).foldl
      (fun f i => update f (start + i) (f (remove_end + i))) s.g_text
    g_text_len := s.g_text_len - (remove_end - start)
    g_dirty := true }

def delete_line (s : Editor) (line : Nat) : Result :=
  match line_bounds s.text line with
  | none => (some (ascii "adatext: line does not exist\n"), s)
  | some (start, _, remove_end) => (none, removeBytes s start remove_end)

def replace_line (s : Editor) (line : Nat) (text : Text) : Result :=
  match delete_line s line with
  | (some message, s) => (some message, s)
  | (none, s) => insert_line s line text

/-- What becomes of opening and reading a file: there is none, it cannot be opened, or
what `read` gives (nothing where it fails) and whether there is more. -/
inductive Opened where
  | missing
  | failed
  | file (content : Option Text) (extra : Bool)

/-- `u_copy` to `g_path`. A path that is too long is copied as far as it fits; the last
byte of the buffer is only ever a NUL. -/
def copyPath (s : Editor) (path : Text) : Result :=
  if path.length ≥ PATH_CAP then
    (some (ascii "adatext: path too long\n"), { s with g_path := path.take (PATH_CAP - 1) })
  else (none, { s with g_path := path, g_dirty := false })

def load_file (s : Editor) (path : Text) (opened : Opened) : Result :=
  let empty := { s with g_text := update s.g_text 0 0, g_text_len := 0 }
  match opened with
  | .missing => copyPath empty path
  | .failed => (some (ascii "adatext: cannot open file\n"), empty)
  | .file none _ => (some (ascii "adatext: read failed\n"), empty)
  | .file (some content) extra =>
    if extra then (some (ascii "adatext: file is larger than editor buffer\n"), empty)
    else
      copyPath { s with
        g_text := fun i => if i < content.length then content.getD i 0
          else if i = content.length then 0 else s.g_text i
        g_text_len := content.length } path

/-- What the calls on a file that is saved answer: whether `open` succeeds, how much each
`write` takes (nothing where it fails), and whether `close` succeeds. -/
structure Target where
  opens : Bool
  writes : List Nat
  closes : Bool

/-- The loop of `save_file`: what has gone to the file, and whether that is everything. -/
def writeLoop : List Nat → Text → Text × Bool
  | _, [] => ([], true)
  | [], _ :: _ => ([], false)
  | n :: writes, text =>
    if n = 0 then ([], false)
    else
      let (stored, done) := writeLoop writes (text.drop n)
      (text.take n ++ stored, done)

/-- `save_file`, and the content of the file where it was opened. -/
def save_file (s : Editor) (path : Text) (file : Target) : Result × Option Text :=
  if path = [] then ((some (ascii "adatext: no file name; use w <path>\n"), s), none)
  else if !file.opens then ((some (ascii "adatext: cannot save file\n"), s), none)
  else
    let (stored, done) := writeLoop file.writes s.text
    if !done then ((some (ascii "adatext: write failed\n"), s), some stored)
    else if !file.closes then ((some (ascii "adatext: close failed\n"), s), some stored)
    else (copyPath s path, some stored)

/-- The command `w`, with what stands behind it. -/
def w_command (s : Editor) (p : Text) (file : Target) : Result × Option Text :=
  save_file s (if p ≠ [] then p else s.g_path) file

/-! ## The text as a list of lines -/

/-- A text whose last line has its newline. -/
def Whole (text : Text) : Prop := text = [] ∨ text.getLast? = some NEWLINE

instance (text : Text) : Decidable (Whole text) := inferInstanceAs (Decidable (_ ∨ _))

/-- The pieces between the newlines. Behind a final newline, and in an empty text, the last
piece is empty; it is not a line. -/
def lines (text : Text) : List Text :=
  if Whole text then (text.splitOn NEWLINE).dropLast else text.splitOn NEWLINE

theorem whole_append_cons (a b : Text) : Whole (a ++ NEWLINE :: b) ↔ Whole b := by
  cases b with
  | nil => simp [Whole]
  | cons c b => simp [Whole, getLast?_append]

theorem lines_append_cons (a b : Text) :
    lines (a ++ NEWLINE :: b) = a.splitOn NEWLINE ++ lines b := by
  grind [splitOn_append_cons_self, whole_append_cons, lines, dropLast_append_of_ne_nil,
    splitOn_ne_nil]

/-- A text that is whole is followed by further lines. -/
theorem Whole.lines_append {e : Text} (h : Whole e) (x : Text) :
    lines (e ++ x) = lines e ++ lines x := by
  obtain rfl | h := h
  · rfl
  obtain ⟨a, rfl⟩ := getLast?_eq_some_iff.mp h
  rw [append_assoc, singleton_append, lines_append_cons, lines_append_cons]
  simp [lines, Whole]

theorem length_splitOn (a : UInt8) (l : Text) : (l.splitOn a).length = l.count a + 1 := by
  induction l with
  | nil => rfl
  | cons c l ih =>
    rw [splitOn_cons_eq_if_modifyHead]
    grind

/-- The loop leaves out only a newline at the very end. -/
theorem countLoop_add (text : Text) :
    countLoop text + (if text.getLast? = some NEWLINE then 1 else 0) = text.count NEWLINE := by
  induction text with
  | nil => rfl
  | cons c rest ih =>
    rw [count_cons, ← ih, countLoop]
    cases rest with
    | nil => simp [countLoop]
    | cons d rest => simp [getLast?_cons_cons, Nat.add_comm, Nat.add_left_comm]

/-- `line_count` is the number of lines. -/
theorem line_count_eq (text : Text) : line_count text = (lines text).length := by
  have hcount := countLoop_add text
  unfold line_count lines Whole
  by_cases hnil : text = []
  · simp [hnil]
  by_cases hlast : text.getLast? = some NEWLINE
  · simp only [hnil, hlast, or_true, if_true, if_false, length_dropLast, length_splitOn] at hcount ⊢
    omega
  · simp only [hnil, hlast, or_self, if_false, length_splitOn] at hcount ⊢
    omega

/-! ## The edits on the text -/

theorem insert_bytes_cases (s : Editor) (pos : Nat) (data : Text) :
    (∃ message, insert_bytes s pos data = (some message, s)) ∨
      (insert_bytes s pos data).1 = none := by grind [insert_bytes]

theorem insert_line_cases (s : Editor) (line : Nat) (t : Text) :
    (∃ message, insert_line s line t = (some message, s)) ∨
      (insert_line s line t).1 = none := by grind [insert_line, insert_bytes_cases]

/-- At the end of the text only its NUL is moved. -/
theorem insert_at_end {s s' : Editor} {data : Text}
    (h : insert_bytes s s.g_text_len data = (none, s')) : s'.text = s.text ++ data := by
  unfold insert_bytes at h
  dsimp only at h
  split at h
  · cases h
  obtain rfl := (Prod.mk.inj h).2
  rw [Editor.text, range_add, map_append, map_map]
  refine congrArg₂ (· ++ ·) (map_congr_left fun i hi => ?_)
    (ext_getElem (by simp) fun i hi hi' => ?_)
  · have hlt := mem_range.mp hi
    dsimp only
    rw [update_of_ne (by omega), Tty.storeLoop_apply, if_neg (by omega), Nat.add_sub_cancel_left]
    exact update_of_ne (by omega) ..
  · rw [getElem_map, getElem_range, comp_apply]
    dsimp only
    rw [update_of_ne (by omega), Tty.storeLoop_apply, if_pos (by omega), Nat.add_sub_cancel_left]
    simp [hi']

/-! ## The results -/

/-- A line that is appended is a line of its own, and is counted, exactly behind a whole
text. -/
theorem append_adds_line_iff {s s' : Editor} {t : Text} (ht : NEWLINE ∉ t)
    (hok : append_line s t = (none, s')) :
    (lines s'.text = lines s.text ++ [t] ↔ Whole s.text) ∧
      (line_count s'.text = line_count s.text + 1 ↔ Whole s.text) := by
  have htext : s'.text = s.text ++ (t ++ [NEWLINE]) := by
    unfold append_line insert_line at hok
    grind [insert_at_end]
  have hadds : Whole s.text → lines s'.text = lines s.text ++ [t] := by
    intro hw
    rw [htext, hw.lines_append, lines_append_cons, splitOn_eq_singleton ht]
    rfl
  -- behind a line without its newline the number of lines stays
  have hcounted : (lines s'.text).length = (lines s.text).length + 1 → Whole s.text := by
    intro hlen
    by_contra hw
    have hlast : lines s.text = s.text.splitOn NEWLINE := if_neg hw
    rw [htext, ← append_assoc, lines_append_cons, hlast, length_append, length_splitOn,
      length_splitOn, count_append, count_eq_zero_of_not_mem ht] at hlen
    have hnone : (lines []).length = 0 := rfl
    omega
  rw [line_count_eq, line_count_eq]
  grind

/-- The line `b` behind the text of one line `a`. -/
theorem append_to_one_line :
    let s : Editor := ⟨fun i => if i = 0 then 0x61 else NEWLINE, 2, [0x66], false⟩
    lines s.text = [[0x61]] ∧ lines (append_line s [0x62]).2.text = [[0x61]] ++ [[0x62]] ∧
      line_count (append_line s [0x62]).2.text = 1 + 1 := by
  intro s
  have h := append_adds_line_iff (s := s) (t := [0x62]) (by decide) rfl
  exact ⟨by decide, h.1.mpr (.inr rfl), h.2.mpr (.inr rfl)⟩

/-- A file without a final newline, and a line appended to it. -/
theorem appended_to_last_line :
    let s := (load_file ⟨fun _ => 0, 0, [], false⟩ [0x66] (.file (some [0x61]) false)).2
    (append_line s [0x62]).1 = none ∧
      lines s.text = [[0x61]] ∧ lines (append_line s [0x62]).2.text = [[0x61, 0x62]] := by
  decide

/-- The state that a failure must keep. -/
def Same (s s' : Editor) : Prop := s.text = s'.text ∧ s.g_path = s'.g_path ∧ s.g_dirty = s'.g_dirty

/-- The old states of which a failing `load_file` loses nothing, by what has failed. A file
that cannot be opened or read, or is too large, leaves an empty text. Where the path is too
long it has already been copied as far as it fits, behind the empty text of a new file or
behind the content of the file. -/
def LosesNothing (s : Editor) (path : Text) : Opened → Prop
  | .failed => s.text = []
  | .file none _ => s.text = []
  | .file (some _) true => s.text = []
  | .missing => s.text = [] ∧ s.g_path = path.take (PATH_CAP - 1)
  | .file (some content) false => s.text = content ∧ s.g_path = path.take (PATH_CAP - 1)

theorem line_bounds_lt {text : Text} {line start stop remove_end : Nat}
    (h : line_bounds text line = some (start, stop, remove_end)) :
    start < text.length ∧ start < remove_end := by
  grind [line_bounds, Option.some.injEq, Prod.mk.injEq]

theorem copyPath_failed {s : Editor} {path : Text} (h : (copyPath s path).1 ≠ none) :
    (copyPath s path).2 = { s with g_path := path.take (PATH_CAP - 1) } := by grind [copyPath]

/-- What a failing `load_file` keeps, by what has failed. -/
theorem load_file_failed {s : Editor} {path : Text} {o : Opened}
    (h : (load_file s path o).1 ≠ none) :
    (load_file s path o).2.g_dirty = s.g_dirty ∧
      ((load_file s path o).2.text = s.text ∧ (load_file s path o).2.g_path = s.g_path ↔
        LosesNothing s path o) := by
  have hempty : ([] = s.text ∧ s.g_path = s.g_path) ↔ s.text = [] :=
    (and_iff_left rfl).trans eq_comm
  cases o with
  | missing =>
    rw [show (load_file s path .missing).2 = _ from copyPath_failed h]
    exact ⟨rfl, and_congr eq_comm eq_comm⟩
  | failed => exact ⟨rfl, hempty⟩
  | file content extra =>
  match content, extra with
  | none, _ => exact ⟨rfl, hempty⟩
  | some content, true => exact ⟨rfl, hempty⟩
  | some content, false =>
    rw [show (load_file s path (.file (some content) false)).2 = _ from copyPath_failed h]
    refine ⟨rfl, and_congr ?_ eq_comm⟩
    rw [eq_comm]
    refine Eq.congr_right (ext_getElem (by simp [Editor.text]) fun i hi hi' => ?_)
    simp [Editor.text, hi']

/-- A loop that comes to its end has stored the text. -/
theorem writeLoop_done {writes : List Nat} {text : Text} (h : (writeLoop writes text).2 = true) :
    (writeLoop writes text).1 = text := by
  fun_induction writeLoop writes text with
  | case1 => rfl
  | case2 => cases h
  | case3 => cases h
  | case4 n writes text _ _ stored done hloop ih => simp_all

theorem save_file_stores {s : Editor} {path : Text} {file : Target}
    (h : (save_file s path file).1.1 = none) : (save_file s path file).2 = some s.text := by
  unfold save_file at h ⊢
  grind [writeLoop_done]

/-- A failure of `replace_line` keeps the state exactly if the line does not exist. One of
`load_file` keeps it exactly in the cases listed, and exactly then the next `w` without a
path, if it succeeds, stores the old text under the old name. -/
theorem failure_loses_nothing_iff (s : Editor) (line : Nat) (t path : Text) (o : Opened) :
    ((replace_line s line t).1 ≠ none →
      (Same (replace_line s line t).2 s ↔ line_bounds s.text line = none)) ∧
    ((load_file s path o).1 ≠ none →
      (Same (load_file s path o).2 s ↔ LosesNothing s path o) ∧
      ∀ file, (w_command (load_file s path o).2 [] file).1.1 = none →
        ((w_command (load_file s path o).2 [] file).2 = some s.text ∧
          (load_file s path o).2.g_path = s.g_path ↔ LosesNothing s path o)) := by
  constructor
  · intro h
    rw [replace_line, delete_line] at h ⊢
    cases hb : line_bounds s.text line with
    | none => exact iff_of_true ⟨rfl, rfl, rfl⟩ rfl
    | some bounds =>
    -- the line is gone when the new one is refused
    obtain ⟨start, stop, remove_end⟩ := bounds
    obtain ⟨hstart, hend⟩ := line_bounds_lt hb
    rw [hb] at h
    dsimp only at h ⊢
    obtain ⟨message, hfail⟩ | hok := insert_line_cases (removeBytes s start remove_end) line t
    swap
    · exact absurd hok h
    rw [hfail]
    refine iff_of_false (fun hsame => ?_) (Option.some_ne_none _)
    have hlen := congrArg length hsame.1
    simp only [Editor.text, removeBytes, length_map, length_range] at hlen hstart
    omega
  · intro h
    obtain ⟨hdirty, hkept⟩ := load_file_failed h
    refine ⟨?_, fun file hw => ?_⟩
    · simp_all [Same]
    · rw [w_command, save_file_stores hw, Option.some.injEq]
      exact hkept

/-- The text `a` of the file `f`, and another file that cannot be opened: the next write
command stores nothing under the name `f`. -/
theorem text_lost_by_open :
    let s : Editor := ⟨fun _ => 0x61, 1, [0x66], false⟩
    let r := load_file s [0x67] .failed
    r.1 ≠ none ∧ s.text = [0x61] ∧ r.2.text = [] ∧ r.2.g_path = s.g_path ∧
      w_command r.2 [] ⟨true, [], true⟩ = ((none, r.2), some []) := by
  refine ⟨by decide, by decide, by decide, rfl, ?_⟩
  rfl

end System1.AdaText
