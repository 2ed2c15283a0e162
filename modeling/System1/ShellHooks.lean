/-
The hooks of the kernel shell, `src/kernel/core/shell/shell_core.c`: the history under the
arrows and the completion under the tabulator.

A string of the shell is an array with a NUL in it, and the loops that run to the NUL are
bounded by the size of the arrays. Completion of a path lists a directory; what it finds is
a parameter, since it only ever goes into the line through `shell_replace_token`.

That function moves the rest of the line from its front on. Where the token grows the rest is
moved up, over bytes that are still to be read, and what comes out is its start over and over
(`copyLoop_apply`); `token_spliced_iff` says which lines do not show it.
-/
import System1.TtyLine

set_option autoImplicit false

namespace System1.Tty

open System1.Lib Function List

def SHELL_LINE_CAP : Nat := 256
def SHELL_HISTORY_CAP : Nat := 16

def shell_is_space (c : UInt8) : Bool := c = SPACE ∨ c = 0x09

/-- The index of the NUL, in an array of `SHELL_LINE_CAP` bytes. -/
def shell_strlen (s : Nat → UInt8) : Nat :=
  ((range SHELL_LINE_CAP).find? fun i => s i = 0).getD SHELL_LINE_CAP

def shell_memcpy (dst src : Nat → UInt8) (len : Nat) : Nat → UInt8 :=
  (range len).foldl (fun dst i => update dst i (src i)) dst

def shell_copy_string (dst : Nat → UInt8) (cap : Nat) (src : Nat → UInt8) : Nat → UInt8 :=
  if cap = 0 then dst
  else
    let i := ((range (cap - 1)).find? fun i => src i = 0).getD (cap - 1)
    update (shell_memcpy dst src i) i 0

/-! ## History -/

structure History where
  g_shell_history : Nat → Nat → UInt8
  g_shell_history_count : Nat
  g_shell_history_head : Nat
  g_shell_history_nav : Int
  g_shell_history_draft : Nat → UInt8

def shell_history_slot (h : History) (reverse_index : Nat) : Nat :=
  u32_sub (u32 (h.g_shell_history_head + SHELL_HISTORY_CAP - 1)) reverse_index % SHELL_HISTORY_CAP

/-- The line the navigation points at. -/
def recalledLine (h : History) : Nat → UInt8 :=
  h.g_shell_history (shell_history_slot h h.g_shell_history_nav.toNat)

def shell_replace_line (cap : Nat) (l : Line UInt8) (text : Nat → UInt8) : Line UInt8 :=
  let new_len := if shell_strlen text ≥ cap then cap - 1 else shell_strlen text
  ⟨update (shell_memcpy l.data text new_len) new_len 0, new_len, new_len⟩

def shell_history_hook (h : History) (direction : Int) (cap : Nat) (l : Line UInt8) :
    Int × Line UInt8 × History :=
  if h.g_shell_history_count = 0 then (0, l, h)
  else if direction < 0 then
    if h.g_shell_history_nav < 0 then
      let h := { h with
        g_shell_history_draft := shell_copy_string h.g_shell_history_draft SHELL_LINE_CAP l.data
        g_shell_history_nav := 0 }
      (1, shell_replace_line cap l (recalledLine h), h)
    else if (h.g_shell_history_nav + 1).toNat ≥ h.g_shell_history_count then (0, l, h)
    else
      let h := { h with g_shell_history_nav := h.g_shell_history_nav + 1 }
      (1, shell_replace_line cap l (recalledLine h), h)
  else if h.g_shell_history_nav < 0 then (0, l, h)
  else if h.g_shell_history_nav = 0 then
    (1, shell_replace_line cap l h.g_shell_history_draft, { h with g_shell_history_nav := -1 })
  else
    let h := { h with g_shell_history_nav := h.g_shell_history_nav - 1 }
    (1, shell_replace_line cap l (recalledLine h), h)

/-! ## Completion -/

/-- The return code and the line. -/
def shell_replace_token (cap : Nat) (l : Line UInt8) (token_start token_end : Nat)
    (replacement : List UInt8) : Int × Line UInt8 :=
  let suffix_len := l.len - token_end
  let new_len := token_start + replacement.length + suffix_len
  if new_len ≥ cap then (0, l)
  else
    let moved := (range suffix_len).foldl (fun buf i =>
      update buf (token_start + replacement.length + i) (buf (token_end + i))) l.data
    let copied := (range replacement.length).foldl (fun buf i =>
      update buf (token_start + i) (replacement.getD i 0)) moved
    (1, ⟨update copied new_len 0, new_len, token_start + replacement.length⟩)

/-- The walk back from the cursor to the start of its token. -/
def tokenStart (buf : Nat → UInt8) : Nat → Nat
  | 0 => 0
  | n + 1 => if shell_is_space (buf n) then n + 1 else tokenStart buf n

/-- The walk on to the end of the token, with `n` characters left. -/
def tokenEnd (buf : Nat → UInt8) (i : Nat) : Nat → Nat
  | 0 => i
  | n + 1 => if shell_is_space (buf i) then i else tokenEnd buf (i + 1) n

/-- The tokens that start before `token_start`. -/
def tokenIndex (buf : Nat → UInt8) (token_start : Nat) : Nat :=
  (range token_start).countP fun i =>
    !shell_is_space (buf i) && (i = 0 || shell_is_space (buf (i - 1)))

def g_shell_commands : List (List UInt8) :=
  ["help", "clear", "echo", "version", "reboot", "shutdown", "shell", "pwd", "cd", "ls", "cat",
    "stat", "mkdir", "touch", "write", "rm", "sync", "history", "ticks", "exec", "fsstat",
    "mmstat"].map fun name => name.toList.map fun c => UInt8.ofNat c.toNat

/-- The command that `token` starts, if it is one. -/
def shell_find_unique_command (token : List UInt8) : Option (List UInt8) :=
  match g_shell_commands.filter fun command => token.isPrefixOf command with
  | [command] => some command
  | _ => none

section

variable (shell_find_unique_path_match : List UInt8 → Option (List UInt8))

def shell_tab_hook (cap : Nat) (l : Line UInt8) : Line UInt8 :=
  if l.cursor = 0 ∨ l.cursor > l.len then l
  else
    let token_start := tokenStart l.data l.cursor
    let token_end := tokenEnd l.data l.cursor (l.len - l.cursor)
    if token_start = token_end then l
    else
      let token := ((range (l.cursor - token_start)).map fun i =>
        l.data (token_start + i)).takeWhile (· ≠ 0)
      if token = [] then l
      else
        let found :=
          if tokenIndex l.data token_start = 0 then shell_find_unique_command token
          else shell_find_unique_path_match token
        match found with
        | none => l
        | some replacement => (shell_replace_token cap l token_start token_end replacement).2

/-- What the kernel shell hooks in. -/
def shellHooks : Hooks History where
  tab_hook := some fun h cap l => (shell_tab_hook shell_find_unique_path_match cap l, h)
  history_hook := some shell_history_hook

end

/-! ## The hooks are honest -/

theorem shell_replace_line_fits {cap : Nat} (hcap : 0 < cap) (l : Line UInt8) (text : Nat → UInt8) :
    (shell_replace_line cap l text).Inside ∧ (shell_replace_line cap l text).len < cap := by
  refine ⟨Nat.le_refl _, ?_⟩
  unfold shell_replace_line
  dsimp only
  split <;> omega

/-- Replacing a token keeps the cursor inside the line and the line inside its buffer. -/
theorem shell_replace_token_fits {cap : Nat} {l : Line UInt8} (hin : l.Inside) (hlen : l.len < cap)
    (token_start token_end : Nat) (replacement : List UInt8) :
    (shell_replace_token cap l token_start token_end replacement).2.Inside ∧
      (shell_replace_token cap l token_start token_end replacement).2.len < cap := by
  unfold shell_replace_token
  dsimp only
  split
  · exact ⟨hin, hlen⟩
  · exact ⟨Nat.le_add_right _ _, by dsimp only; omega⟩

/-- Either nothing happens or the line is one of the shell's. -/
theorem shell_history_hook_cases (h : History) (direction : Int) (cap : Nat) (l : Line UInt8) :
    shell_history_hook h direction cap l = (0, l, h) ∨
      ∃ text h', shell_history_hook h direction cap l = (1, shell_replace_line cap l text, h') := by
  unfold shell_history_hook
  split
  · exact .inl rfl
  grind

/-- The shell's hooks keep what the editor asks of hooks. -/
theorem shellHooks_honest (find : List UInt8 → Option (List UInt8)) {cap : Nat} (hcap : 0 < cap) :
    (shellHooks find).Honest cap where
  kept := by
    rintro _ ⟨⟩ h d l hzero
    obtain heq | ⟨text, h', heq⟩ := shell_history_hook_cases h d cap l
    · rw [heq]
      exact .refl l
    · rw [heq] at hzero
      cases hzero
  recalled := by
    rintro _ ⟨⟩ h d l hne
    grind [shell_history_hook_cases, shell_replace_line_fits]
  completed := by
    rintro _ ⟨⟩ h l hin hlen
    show (shell_tab_hook find cap l).Inside ∧ (shell_tab_hook find cap l).len < cap
    unfold shell_tab_hook
    dsimp only
    repeat' split
    all_goals first
      | exact ⟨hin, hlen⟩
      | exact shell_replace_token_fits hin hlen _ _ _

/-! ## Replacing a token -/

/-- What a byte copy loop leaves in the buffer. -/
theorem storeLoop_apply (f g : Nat → UInt8) (dst n j : Nat) :
    (range n).foldl (fun buf i => update buf (dst + i) (g i)) f j =
      if dst ≤ j ∧ j < dst + n then g (j - dst) else f j := by
  induction n with
  | zero => exact (if_neg (by omega)).symm
  | succ n ih =>
    rw [range_succ, foldl_append, foldl_cons, foldl_nil]
    grind

/-- `for (i = 0; i < n; ++i) buf[dst + i] = buf[src + i];` A byte that the copy has already
reached is read again, so a copy to a higher place repeats the bytes between the two. -/
theorem copyLoop_apply (f : Nat → UInt8) (dst src n j : Nat) :
    (range n).foldl (fun buf i => update buf (dst + i) (buf (src + i))) f j =
      if dst ≤ j ∧ j < dst + n then f (src + (j - dst) % (dst - src)) else f j := by
  induction n generalizing j with
  | zero => exact (if_neg (by omega)).symm
  | succ n ih =>
    rw [range_succ, foldl_append, foldl_cons, foldl_nil]
    by_cases hj : j = dst + n
    · rw [hj, update_self, if_pos (by omega), Nat.add_sub_cancel_left, ih]
      split
      · rw [show src + n - dst = n - (dst - src) by omega,
          ← Nat.mod_eq_sub_mod (by omega)]
      by_cases hdown : dst ≤ src
      · rw [Nat.sub_eq_zero_of_le hdown, Nat.mod_zero]
      · rw [Nat.mod_eq_of_lt (by omega)]
    · rw [update_of_ne hj, ih]
      exact if_congr (by omega) rfl rfl

/-- A line cut at two places. -/
theorem text_cut (l : Line UInt8) {a r s : Nat} (h : l.len = a + r + s) :
    l.text = (range a).map l.data ++ (range r).map (fun i => l.data (a + i)) ++
      (range s).map fun i => l.data (a + r + i) := by
  unfold Line.text
  rw [h, range_add, range_add, map_append, map_append, map_map, map_map]
  rfl

/-- The line behind a replacement that fits: the start and the replacement are in place, and
of the rest is what the copy has made of it. -/
theorem text_replaced {l : Line UInt8} {cap token_start token_end : Nat}
    {replacement : List UInt8}
    (hfit : token_start + replacement.length + (l.len - token_end) < cap) :
    (shell_replace_token cap l token_start token_end replacement).2.text =
      (range token_start).map l.data ++ replacement ++
        (range (l.len - token_end)).map fun i =>
          l.data (token_end + i % (token_start + replacement.length - token_end)) := by
  unfold shell_replace_token
  rw [if_neg (by omega), text_cut _ rfl]
  dsimp only
  refine congrArg₂ (· ++ ·) (congrArg₂ (· ++ ·) (map_congr_left ?_) ?_)
    (map_congr_left ?_)
  · intro i hi
    have hi := mem_range.mp hi
    rw [update_of_ne (by omega), storeLoop_apply, if_neg (by omega), copyLoop_apply,
      if_neg (by omega)]
  · apply ext_getElem
    · simp
    intro i hi hi'
    rw [getElem_map, getElem_range, update_of_ne (by omega), storeLoop_apply,
      if_pos (by omega), Nat.add_sub_cancel_left, getD_eq_getElem?_getD,
      getElem?_eq_getElem hi', Option.getD_some]
  · intro i hi
    have hi := mem_range.mp hi
    rw [update_of_ne (by omega), storeLoop_apply, if_neg (by omega), copyLoop_apply,
      if_pos (by omega), Nat.add_sub_cancel_left]

/-- A replacement that fits is a splice exactly if the token does not grow, or the rest of
the line repeats itself with the growth as its period. One that does not fit changes
nothing. -/
theorem token_spliced_iff (cap : Nat) {l l' : Line UInt8} {token_start token_end : Nat}
    {replacement : List UInt8} {rc : Int} (hrange : token_start ≤ token_end ∧ token_end ≤ l.len)
    (h : shell_replace_token cap l token_start token_end replacement = (rc, l')) :
    (rc = 0 → l' = l) ∧
    (rc = 1 →
      l'.len = token_start + replacement.length + (l.len - token_end) ∧ l'.len < cap ∧
        l'.data l'.len = 0 ∧ l'.cursor = token_start + replacement.length ∧
        (l'.text = l.text.take token_start ++ replacement ++ l.text.drop token_end ↔
          replacement.length ≤ token_end - token_start ∨
            ∀ i < l.len - token_end, l.data (token_end +
              i % (replacement.length - (token_end - token_start))) = l.data (token_end + i))) := by
  obtain ⟨hstart, hend⟩ := hrange
  have htext := @text_replaced l cap token_start token_end replacement
  rw [h] at htext
  unfold shell_replace_token at h
  dsimp only at h
  split at h
  · obtain ⟨rfl, rfl⟩ := Prod.mk.inj h
    exact ⟨fun _ => rfl, fun hrc => absurd hrc (by decide)⟩
  next hfull =>
  obtain ⟨rfl, hl'⟩ := Prod.mk.inj h
  refine ⟨fun hrc => absurd hrc (by decide), fun _ => ?_⟩
  have hlen : l'.len = token_start + replacement.length + (l.len - token_end) := by rw [← hl']
  refine ⟨hlen, by omega, ?_, by rw [← hl'], ?_⟩
  · rw [← hl']
    exact update_self ..
  -- the line before, cut at the token
  have hcut := text_cut l (a := token_start) (r := token_end - token_start)
    (s := l.len - token_end) (by omega)
  rw [Nat.add_sub_cancel' hstart] at hcut
  have htake : l.text.take token_start = (range token_start).map l.data := by
    rw [hcut, append_assoc]
    exact take_left' (by simp)
  have hdrop : l.text.drop token_end =
      (range (l.len - token_end)).map fun i => l.data (token_end + i) := by
    rw [hcut]
    exact drop_left' (by simp; omega)
  rw [htext (Nat.lt_of_not_le hfull), htake, hdrop, append_cancel_left_eq, map_inj_left,
    show token_start + replacement.length - token_end =
      replacement.length - (token_end - token_start) by omega]
  simp only [mem_range]
  constructor
  · exact .inr
  · rintro (hshort | hrepeats)
    · intro i _
      rw [Nat.sub_eq_zero_of_le hshort, Nat.mod_zero]
    · exact hrepeats

/-- The line `ec abc` with the cursor behind `ec`. -/
def ecLine : Line UInt8 := ⟨fun i => [0x65, 0x63, 0x20, 0x61, 0x62, 0x63].getD i 0, 6, 2⟩

/-- With `l` for `ec` it is `l abc`. -/
theorem shorter_token_spliced :
    (shell_replace_token SHELL_LINE_CAP ecLine 0 2 [0x6C]).1 = 1 ∧
    (shell_replace_token SHELL_LINE_CAP ecLine 0 2 [0x6C]).2.text =
      [0x6C, 0x20, 0x61, 0x62, 0x63] := by
  have hrc : (shell_replace_token SHELL_LINE_CAP ecLine 0 2 [0x6C]).1 = 1 := by decide
  obtain ⟨-, hone⟩ := token_spliced_iff SHELL_LINE_CAP (l := ecLine) (by decide)
    (Prod.mk.eta (p := shell_replace_token SHELL_LINE_CAP ecLine 0 2 [0x6C])).symm
  exact ⟨hrc, (hone hrc).2.2.2.2.mpr (.inl (by decide))⟩

/-- Completing `ec` to `echo` makes `echo a a` of it. -/
theorem completion_garbles_rest :
    (shell_tab_hook (fun _ => none) SHELL_LINE_CAP ecLine).text =
      [0x65, 0x63, 0x68, 0x6F, 0x20, 0x61, 0x20, 0x61] := by
  decide +kernel

end System1.Tty
