/-
The configuration files: `/etc/msh.cfg`, which `load_config` of MultiShell and
`history_path` of `history.prg` read, and `/etc/kernel.cfg`, which `kconfig.prg` writes
and the kernel reads at boot.

The three readers cut their buffer into lines in the same way and differ in everything
else: how much of the file fits the buffer, whether the first or the last line of a key
counts, and how long a value may be. For the history path that is a difference of
behaviour (`same_history_path_iff`). For the shell path the writer stays inside the
limits of the reader, and what it stores is what the kernel starts
(`selected_shell_started`).

The system calls are parameters: what `open` and `read` make of a file is an `Option`.
-/
import System1.Msh
import System1.VfsPaths
import System1.VgaText

set_option autoImplicit false

namespace System1.Config

open Msh (Text ascii HASH)
open Tty (NEWLINE)
open List

def CARRIAGE_RETURN : UInt8 := 0x0D
def EQUALS : UInt8 := 0x3D

def isEol (c : UInt8) : Bool := c = NEWLINE ∨ c = CARRIAGE_RETURN

/-- The lines of a buffer. A run of several ends of line gives empty lines here; the
source skips the whole run, and then every reader skips an empty line as well. -/
def cfgLines (buf : Text) : List Text := buf.splitOnP isEol

/-! ## The shell's configuration -/

inductive PromptMode where
  | CWD
  | NAME
  deriving DecidableEq, Repr

/-- What `load_config` sets. -/
structure MshConfig where
  g_path : Text := ascii "/bin"
  g_prompt_text : Text := ascii "msh"
  g_prompt_suffix : Text := ascii " > "
  g_history_file : Text := ascii "/root/history"
  g_motd_file : Text := ascii "/etc/motd"
  g_prompt_mode : PromptMode := .CWD
  g_banner : Nat := 0
  g_history_max_bytes : Nat := 3072
  deriving DecidableEq, Repr

def HISTORY_PATH_CAP : Nat := 96
def MOTD_PATH_CAP : Nat := 96

def key_matches (line key : Text) : Bool := (key ++ [EQUALS]).isPrefixOf line

/-- The value behind the `=`, as the string the destination holds afterwards. -/
def copy_value (cap : Nat) (line : Text) (key_len : Nat) : Text :=
  (CString.cut ((line.drop (key_len + 1)).take (cap - 1))).bytes

def parse_uint (s : Text) (fallback : Nat) : Nat :=
  if s = [] ∨ s.any (fun c => c < 0x30 ∨ c > 0x39) then fallback
  else s.foldl (fun value c => u32 (value * 10 + (c.toNat - 0x30))) 0

/-- One line of `load_config`. -/
def configLine (cfg : MshConfig) (line : Text) : MshConfig :=
  if line = [] ∨ line.head? = some HASH then cfg
  else if key_matches line (ascii "path") then { cfg with g_path := copy_value 64 line 4 }
  else if key_matches line (ascii "prompt_mode") then
    { cfg with g_prompt_mode := if copy_value 96 line 11 = ascii "name" then .NAME else .CWD }
  else if key_matches line (ascii "prompt_text") then
    { cfg with g_prompt_text := copy_value 32 line 11 }
  else if key_matches line (ascii "prompt_suffix") then
    { cfg with g_prompt_suffix := copy_value 16 line 13 }
  else if key_matches line (ascii "banner") then
    { cfg with g_banner := if copy_value 96 line 6 = ascii "0" then 0 else 1 }
  else if key_matches line (ascii "history_file") then
    { cfg with g_history_file := copy_value HISTORY_PATH_CAP line 12 }
  else if key_matches line (ascii "history_max_bytes") then
    { cfg with g_history_max_bytes := parse_uint (copy_value 96 line 17) 3072 }
  else if key_matches line (ascii "motd") then
    { cfg with g_motd_file := copy_value MOTD_PATH_CAP line 4 }
  else cfg

/-- `load_config`, with the content of `/etc/msh.cfg` where it can be opened. -/
def load_config (file : Option Text) (cfg : MshConfig) : MshConfig :=
  match file with
  | none => cfg
  | some content => (cfgLines (content.take 319)).foldl configLine cfg

/-- `history_path` of `history.prg`. -/
def history_path (cap : Nat) (file : Option Text) : Text :=
  let default := (ascii "/root/history").take (cap - 1)
  match file with
  | none => default
  | some content =>
    match (cfgLines (content.take 255)).find? fun line =>
        ¬ (line = [] ∨ line.head? = some HASH) ∧ key_matches line (ascii "history_file") with
    | some line => copy_value cap line 12
    | none => default

/-- A `history_file` line. -/
abbrev isHistory (line : Text) : Bool := key_matches line (ascii "history_file")

/-- The history paths a buffer names, in the order of its lines. -/
def historyPaths (buf : Text) : List Text :=
  ((cfgLines buf).filter isHistory).map (copy_value HISTORY_PATH_CAP · 12)

/-- A line has one key. -/
theorem key_matches_initial {line k₁ k₂ : Text} (h₁ : key_matches line k₁)
    (h₂ : key_matches line k₂) :
    k₁ ++ [EQUALS] <+: k₂ ++ [EQUALS] ∨ k₂ ++ [EQUALS] <+: k₁ ++ [EQUALS] := by
  rw [key_matches, isPrefixOf_iff_prefix] at h₁ h₂
  exact prefix_or_prefix_of_prefix h₁ h₂

theorem history_line_not_comment {line : Text} (h : isHistory line) :
    ¬ (line = [] ∨ line.head? = some HASH) := by
  obtain ⟨rest, rfl⟩ := isPrefixOf_iff_prefix.mp h
  simp [ascii, HASH]

/-- Only a `history_file` line sets the history file. -/
theorem configLine_history (cfg : MshConfig) (line : Text) :
    (configLine cfg line).g_history_file
      = if isHistory line then copy_value HISTORY_PATH_CAP line 12
        else cfg.g_history_file := by
  by_cases h : isHistory line
  · have other : ∀ key : Text, ¬ (key ++ [EQUALS] <+: ascii "history_file" ++ [EQUALS] ∨
        ascii "history_file" ++ [EQUALS] <+: key ++ [EQUALS]) →
        key_matches line key = false :=
      fun key hkey => Bool.eq_false_iff.mpr fun hk => hkey (key_matches_initial hk h)
    simp only [configLine, history_line_not_comment h, h, if_true, if_false,
      other (ascii "path") (by decide), other (ascii "prompt_mode") (by decide),
      other (ascii "prompt_text") (by decide), other (ascii "prompt_suffix") (by decide),
      other (ascii "banner") (by decide), Bool.false_eq_true]
  · simp only [configLine, h, Bool.false_eq_true, if_false]
    split_ifs <;> rfl

/-- The last line of the key counts. -/
theorem load_config_history (content : Text) (cfg : MshConfig) :
    (load_config (some content) cfg).g_history_file
      = (historyPaths (content.take 319)).getLastD cfg.g_history_file := by
  simp only [load_config, historyPaths]
  induction cfgLines (content.take 319) generalizing cfg with
  | nil => rfl
  | cons line lines ih =>
    rw [foldl_cons, ih, configLine_history]
    by_cases h : isHistory line
    · rw [if_pos h, filter_cons, if_pos h, map_cons, getLastD_cons]
    · rw [if_neg h, filter_cons, if_neg h]

/-- The first line of the key counts. -/
theorem history_path_eq (content : Text) :
    history_path HISTORY_PATH_CAP (some content)
      = match (cfgLines (content.take 255)).find? isHistory with
        | some line => copy_value HISTORY_PATH_CAP line 12
        | none => ascii "/root/history" := by
  have hkey : (fun line => decide (¬ (line = [] ∨ line.head? = some HASH) ∧ isHistory line)) =
      isHistory := by
    funext line
    rw [Bool.eq_iff_iff, decide_eq_true_iff]
    exact and_iff_right_of_imp history_line_not_comment
  rw [history_path, hkey]
  rfl

/-! ## Where the two readers agree

`history.prg` reads the first 255 bytes of what the shell reads, so its lines are the first
lines of the shell, the last of them perhaps cut. -/

/-- The first `history_file` line, and the byte it starts at if the lines start at `n`. -/
def firstHistory (n : Nat) : List Text → Option (Nat × Text)
  | [] => none
  | line :: lines =>
    if isHistory line then some (n, line)
    else firstHistory (n + line.length + 1) lines

/-- The files of which both readers take the same path, by the `history_file` lines in the
first 319 bytes. There is none; or the first one ends within the first 255 bytes and has the
value of the last; or its value begins there, and what there is of it is the value of the
last; or it does not, and the last one has the default value. -/
def OneHistoryFile (content : Text) : Prop :=
  let last := (historyPaths (content.take 319)).getLastD (ascii "/root/history")
  match firstHistory 0 (cfgLines (content.take 319)) with
  | none => True
  | some (start, line) =>
    if start + line.length ≤ 255 then last = copy_value HISTORY_PATH_CAP line 12
    else if start + 13 ≤ 255 then
      last = copy_value HISTORY_PATH_CAP (line.take (255 - start)) 12
    else last = ascii "/root/history"

/-- The key of a line has thirteen bytes with its `=`. -/
theorem isHistory_take (line : Text) (k : Nat) :
    isHistory (line.take k) ↔ isHistory line ∧ 13 ≤ k := by
  simp only [isHistory, key_matches, isPrefixOf_iff_prefix, prefix_take_iff]
  rfl

/-- The first lines of a buffer: it is one line, or a line and the lines behind it. -/
theorem cfgLines_cases (buf : Text) :
    (∀ k, cfgLines (buf.take k) = [buf.take k]) ∨
      ∃ line c rest, buf = line ++ c :: rest ∧ cfgLines buf = line :: cfgLines rest ∧
        ∀ k, cfgLines (buf.take k) = if k ≤ line.length then [line.take k]
          else line :: cfgLines (rest.take (k - line.length - 1)) := by
  have hline : ∀ c ∈ buf.takeWhile (! isEol ·), isEol c = false := by
    intro c hc
    simpa using mem_takeWhile_imp hc
  cases hrest : buf.dropWhile (! isEol ·) with
  | nil =>
    refine .inl fun k => splitOnP_eq_singleton fun c hc => hline c ?_
    grind [takeWhile_append_dropWhile, mem_of_mem_take]
  | cons c rest =>
    have hc : isEol c = true := by
      have hhead := head?_dropWhile_not (! isEol ·) buf
      rw [hrest] at hhead
      simpa using hhead
    have hbuf : buf = buf.takeWhile (! isEol ·) ++ c :: rest := by
      rw [← hrest, takeWhile_append_dropWhile]
    generalize buf.takeWhile (! isEol ·) = line at hline hbuf
    subst hbuf
    refine .inr
      ⟨line, c, rest, rfl, splitOnP_append_cons_of_forall_mem hline c hc rest, fun k => ?_⟩
    split
    · next hk =>
      rw [take_append_of_le_length hk]
      exact splitOnP_eq_singleton fun d hd => hline d (mem_of_mem_take hd)
    · next hk =>
      obtain ⟨j, rfl⟩ : ∃ j, k = line.length + (j + 1) := ⟨k - line.length - 1, by omega⟩
      have hj : line.length + (j + 1) - line.length - 1 = j := by omega
      rw [take_length_add_append, take_succ_cons, hj]
      exact splitOnP_append_cons_of_forall_mem hline c hc _

/-- What a reader of the first `cap` bytes finds, from the lines of the whole. -/
theorem find_history_take (cap n : Nat) (buf : Text) :
    (cfgLines (buf.take (cap - n))).find? isHistory =
      match firstHistory n (cfgLines buf) with
      | none => none
      | some (start, line) =>
        if start + 13 ≤ cap then some (line.take (cap - start)) else none := by
  induction h : buf.length using Nat.strongRecOn generalizing buf n with
  | ind _ ih =>
  subst h
  have hone : ∀ line : Text, [line.take (cap - n)].find? isHistory =
      if isHistory line then
        if n + 13 ≤ cap then some (line.take (cap - n)) else none
      else none := by
    intro line
    have hkey : isHistory (line.take (cap - n)) ↔ isHistory line ∧ n + 13 ≤ cap := by
      rw [isHistory_take]
      exact and_congr_right fun _ => by omega
    simp only [find?_singleton, hkey, ite_and]
  obtain hone' | ⟨line, c, rest, rfl, hlines, htake⟩ := cfgLines_cases buf
  · have hwhole : cfgLines buf = [buf] := by simpa using hone' buf.length
    rw [hone', hone, hwhole, firstHistory, firstHistory]
    split <;> rfl
  have hrest := ih rest.length (by simp; omega) (n + line.length + 1) rest rfl
  rw [htake, hlines, firstHistory]
  split
  · next hk =>
    rw [hone]
    split
    · rfl
    · -- nothing is left for the lines behind
      rw [← hrest, show cap - (n + line.length + 1) = 0 by omega]
      rfl
  · next hk =>
    rw [find?_cons]
    by_cases hkey : isHistory line
    · have hlen := (isHistory_take line line.length).mp (by rwa [take_length])
      rw [hkey, if_pos rfl]
      simp only
      rw [if_pos (by omega), take_of_length_le (by omega)]
    · grind

theorem firstHistory_some {n start : Nat} {lines : List Text} {line : Text}
    (h : firstHistory n lines = some (start, line)) :
    isHistory line := by
  induction lines generalizing n with
  | nil => cases h
  | cons d lines ih => grind [firstHistory]

theorem firstHistory_none {n : Nat} {lines : List Text} (h : firstHistory n lines = none) :
    lines.filter isHistory = [] := by
  induction lines generalizing n with
  | nil => rfl
  | cons d lines ih => grind [firstHistory]

/-- The shell and `history.prg` use one file exactly where the lines of the configuration
say so. -/
theorem same_history_path_iff (content : Text) :
    (load_config (some content) {}).g_history_file
        = history_path HISTORY_PATH_CAP (some content) ↔ OneHistoryFile content := by
  have hfind := find_history_take 255 0 (content.take 319)
  rw [take_take] at hfind
  change find? isHistory (cfgLines (content.take 255)) = _ at hfind
  rw [load_config_history, history_path_eq, hfind]
  unfold OneHistoryFile
  cases hfirst : firstHistory 0 (cfgLines (content.take 319)) with
  | none =>
    rw [historyPaths, firstHistory_none hfirst]
    exact iff_of_true rfl trivial
  | some found =>
    obtain ⟨start, line⟩ := found
    have hkey := firstHistory_some hfirst
    have hlen := (isHistory_take line line.length).mp (by rwa [take_length])
    grind [take_of_length_le]

theorem two_history_lines_disagree :
    let content := ascii "history_file=/a\nhistory_file=/b\n"
    (load_config (some content) {}).g_history_file = ascii "/b" ∧
      history_path HISTORY_PATH_CAP (some content) = ascii "/a" := by
  decide

/-! ## The kernel's configuration -/

def CFG_CAP : Nat := 320

/-- What `write_kernel_shell` returns, prints, and leaves in the file if it succeeds. -/
structure Written where
  rc : Nat
  message : Text
  stored : Option Text
  deriving DecidableEq, Repr

/-- `write_kernel_shell`; the flags say whether the shell could be opened, whether the
file could, and whether `write` succeeded. -/
def write_kernel_shell (shell_exists opened wrote : Bool) (path : Text) : Written :=
  let data := (ascii "# System/1 kernel configuration\nversion=1\nshell=" ++ path
    ++ ascii "\nshells=/etc/shells\nfallback=kernel\n").take (CFG_CAP - 1)
  if ¬ shell_exists then ⟨1, ascii "kconfig: selected shell does not exist\n", none⟩
  else if ¬ opened then
    ⟨1, ascii "kconfig: filesystem is read-only or unavailable\n", none⟩
  else if ¬ wrote then ⟨1, ascii "kconfig: write failed\n", none⟩
  else
    ⟨0, ascii "Selected shell: " ++ path ++ ascii "\nTakes effect on next boot.\n", some data⟩

/-- `bootstrap_load_shell_path`; `read` is `fs_core_read_file` on `/etc/kernel.cfg`, with
the capacity it is called with. -/
def bootstrap_load_shell_path (read : Nat → Option Text) (cap : Nat) : Text :=
  let fallback := (ascii "/bin/sh.prg").take (cap - 1)
  match read 255 with
  | none => fallback
  | some cfg =>
    match (cfgLines cfg).find? fun line =>
        line.length > 6 ∧ (ascii "shell=").isPrefixOf line with
    | none => fallback
    | some line =>
      let out := (line.drop 6).take (cap - 1)
      if out = [] then fallback else (CString.cut out).bytes

/-- The kernel starts the shell that was selected: every path of a length it can hold
comes back from the file whole. -/
theorem selected_shell_started {path data : Text} {shell_exists opened wrote : Bool}
    {read : Nat → Option Text} (hne : path ≠ []) (hlen : path.length < FS_PATH_CAP)
    (hnul : 0 ∉ path) (hlf : NEWLINE ∉ path) (hcr : CARRIAGE_RETURN ∉ path)
    (hstored : (write_kernel_shell shell_exists opened wrote path).stored = some data)
    (hread : ∀ cap, data.length ≤ cap → read cap = some data) :
    bootstrap_load_shell_path read FS_PATH_CAP = path := by
  have hpath : ∀ c ∈ ascii "shell=" ++ path, isEol c = false := by
    intro c hc
    rcases mem_append.mp hc with hc | hc
    · exact (by decide +kernel : ∀ c ∈ ascii "shell=", isEol c = false) c hc
    · grind [isEol, decide_eq_false_iff_not]
  -- The data is short enough for both buffers, so neither of them cuts it.
  have hdata : data = ascii "# System/1 kernel configuration" ++ NEWLINE ::
      (ascii "version=1" ++ NEWLINE :: ((ascii "shell=" ++ path) ++ NEWLINE ::
        ascii "shells=/etc/shells\nfallback=kernel\n")) := by
    simp only [write_kernel_shell] at hstored
    split_ifs at hstored
    rw [← Option.some.inj hstored, take_of_length_le]
    · simp [ascii, NEWLINE]
    · simp only [length_append, ascii, length_map, FS_PATH_CAP, CFG_CAP] at hlen ⊢
      simp
      omega
  have hsize : data.length ≤ 255 := by
    simp only [hdata, length_append, length_cons, ascii, length_map, FS_PATH_CAP] at hlen ⊢
    simp
    omega
  have hlines : cfgLines data = ascii "# System/1 kernel configuration" :: ascii "version=1"
      :: (ascii "shell=" ++ path) :: cfgLines (ascii "shells=/etc/shells\nfallback=kernel\n") := by
    rw [hdata, cfgLines, splitOnP_append_cons_of_forall_mem (by decide +kernel) _ (by decide),
      splitOnP_append_cons_of_forall_mem (by decide +kernel) _ (by decide),
      splitOnP_append_cons_of_forall_mem hpath _ (by decide)]
    rfl
  have hfind : (cfgLines data).find? (fun line => line.length > 6 ∧
      (ascii "shell=").isPrefixOf line) = some (ascii "shell=" ++ path) := by
    rw [hlines, find?_cons_of_neg (by decide), find?_cons_of_neg (by decide),
      find?_cons_of_pos]
    simp [length_pos_iff.mpr hne, ascii]
  have hout : ((ascii "shell=" ++ path).drop 6).take (FS_PATH_CAP - 1) = path := by
    rw [show 6 = (ascii "shell=").length by decide, drop_left]
    exact take_of_length_le (Nat.le_sub_one_of_lt hlen)
  simp only [bootstrap_load_shell_path, hread _ hsize, hfind, hout, if_neg hne,
    Vfs.cut_of_noNul hnul]

theorem selected_msh_started :
    bootstrap_load_shell_path (fun _ => (write_kernel_shell true true true
      (ascii "/bin/msh.prg")).stored) FS_PATH_CAP = ascii "/bin/msh.prg" :=
  selected_shell_started (by decide) (by decide) (by decide) (by decide) (by decide)
    (rfl : (write_kernel_shell true true true (ascii "/bin/msh.prg")).stored = some _)
    fun _ _ => rfl

end System1.Config
