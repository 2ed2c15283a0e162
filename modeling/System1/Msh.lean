/-
MultiShell, `src/userland/smu/shell/msh.c` and `redir.c`: from a command line to the
programs it starts.

`parse_line` fills the token table: a text and a wildcard flag for each token.
`execute_tokens` cuts the table into commands at `;`, `&&` and `||`, `run_segment` takes
the redirections out of a command and expands its wildcards, and `run_external` starts the
program. The three passes behind the parser see nothing of the line but the table.

The parser of this model also notes, for each byte of a word, whether it was quoted or
escaped, and for each token whether the line had it as an operator. No pass reads these
notes; they are there to say what the table loses.

The system calls are a parameter (`Sys`), a table of functions on a state of any type. The
line editor, the history and the configuration file are left out; the search path is a
parameter.
-/
import System1.Base
import Mathlib.Data.List.Infix

set_option autoImplicit false

namespace System1.Msh

abbrev Text := List UInt8

def TOKEN_CAP : Nat := 24
def TOKEN_LEN : Nat := 96
def EXEC_ARG_CAP : Nat := 32
def PATH_CAP : Nat := 96

/-- The bytes the shell knows: blanks, operators, quotes, wildcards and separators. -/
def TAB : UInt8 := 0x09
def SPACE : UInt8 := 0x20
def DQUOTE : UInt8 := 0x22
def HASH : UInt8 := 0x23
def AMP : UInt8 := 0x26
def QUOTE : UInt8 := 0x27
def STAR : UInt8 := 0x2A
def DOT : UInt8 := 0x2E
def SLASH : UInt8 := 0x2F
def TWO : UInt8 := 0x32
def SEMI : UInt8 := 0x3B
def LT : UInt8 := 0x3C
def GT : UInt8 := 0x3E
def QMARK : UInt8 := 0x3F
def BACKSLASH : UInt8 := 0x5C
def BAR : UInt8 := 0x7C

/-- The text of a message or a name of the source. -/
def ascii (s : String) : Text := s.toList.map fun c => UInt8.ofNat c.toNat

/-! ## Tokens -/

/-- A byte of a word, and whether it was quoted or escaped in the line. -/
structure Mark where
  byte : UInt8
  quoted : Bool
  deriving DecidableEq, Repr

inductive Token where
  | operator (text : Text)
  | word (chars : List Mark) (glob : Bool)
  deriving DecidableEq, Repr

def Token.text : Token → Text
  | .operator text => text
  | .word chars _ => chars.map Mark.byte

def Token.glob : Token → Bool
  | .operator _ => false
  | .word _ glob => glob

/-- A row of the token table: `g_tokens[i]` and `g_token_glob[i]`. -/
structure Slot where
  text : Text
  glob : Bool
  deriving DecidableEq, Repr

/-- What the table keeps of a token. -/
def Token.slot (t : Token) : Slot := ⟨t.text, t.glob⟩

/-- The negative results of `parse_line`: -1 where the table is too small, -2 where the
line is malformed. -/
inductive ParseErr where
  | full
  | malformed
  deriving DecidableEq, Repr

def isBlank (c : UInt8) : Bool := c = SPACE ∨ c = TAB

/-- The bytes that end a word outside quotes. -/
def isBreak (c : UInt8) : Bool :=
  isBlank c ∨ c = SEMI ∨ c = AMP ∨ c = BAR ∨ c = GT ∨ c = LT

def isWild (c : UInt8) : Bool := c = STAR ∨ c = QMARK

/-- The word at the start of the line and what is behind it; `quote` is the quote the
line is inside of. -/
def lexWord (quote : Option UInt8) (chars : List Mark) (glob : Bool) :
    Text → Except ParseErr (Token × Text)
  | [] => if quote ≠ none then .error .malformed else .ok (.word chars glob, [])
  | c :: rest =>
    if quote = none ∧ isBreak c then .ok (.word chars glob, c :: rest)
    else if quote = none ∧ (c = QUOTE ∨ c = DQUOTE) then lexWord (some c) chars glob rest
    else if quote = some c then lexWord none chars glob rest
    else if c = BACKSLASH ∧ quote ≠ some QUOTE then
      match rest with
      | [] => .error .malformed
      | d :: rest =>
        if chars.length + 1 ≥ TOKEN_LEN then .error .full
        else lexWord quote (chars ++ [⟨d, true⟩]) glob rest
    else if chars.length + 1 ≥ TOKEN_LEN then .error .full
    else
      lexWord quote (chars ++ [⟨c, quote ≠ none⟩]) (glob || (quote = none ∧ isWild c)) rest

/-- The redirection at the start of the line: a 2 if there is one, the sign, and a second
`>` behind a first. -/
def lexRedirection (line : Text) : Token × Text :=
  let two := if line.head? = some TWO then [TWO] else []
  let line := line.drop two.length
  let sign := line.take 1
  let line := line.drop 1
  if sign = [GT] ∧ line.head? = some GT then (.operator (two ++ [GT, GT]), line.drop 1)
  else (.operator (two ++ sign), line)

/-- The token at the start of a line that is neither blank nor a comment there. -/
def lexToken (line : Text) : Except ParseErr (Token × Text) :=
  let c := line.head?
  let d := (line.drop 1).head?
  if c = some SEMI then .ok (.operator [SEMI], line.drop 1)
  else if c = some GT ∨ c = some LT ∨ (c = some TWO ∧ d = some GT) then .ok (lexRedirection line)
  else if c = some AMP ∧ d = some AMP then .ok (.operator [AMP, AMP], line.drop 2)
  else if c = some BAR ∧ d = some BAR then .ok (.operator [BAR, BAR], line.drop 2)
  else if c = some AMP ∨ c = some BAR then .error .malformed
  else lexWord none [] false line

/-- The loop of `parse_line`, with the rows left in the table. -/
def parseLoop : Nat → Text → Except ParseErr (List Token)
  | room, line =>
    let line := line.dropWhile isBlank
    if line = [] ∨ line.head? = some HASH then .ok []
    else
      match room with
      | 0 => .error .full
      | room + 1 =>
        match lexToken line with
        | .error e => .error e
        | .ok (t, rest) =>
          match parseLoop room rest with
          | .error e => .error e
          | .ok ts => .ok (t :: ts)

/-- `parse_line`, with its notes. -/
def parse_line (line : Text) : Except ParseErr (List Token) := parseLoop TOKEN_CAP line

/-! ## Wildcards -/

/-- `wildcard_match`; a star tries every rest of the text. -/
def wildcard_match : Text → Text → Bool
  | [], text => text = []
  | c :: pattern, text =>
    if c = STAR then text.tails.any (wildcard_match pattern)
    else
      match text with
      | [] => false
      | d :: text => (c = QMARK ∨ c = d) && wildcard_match pattern text

/-- A token up to its last slash, and what is behind it. -/
def basePart (token : Text) : Text := (token.reverse.dropWhile (· ≠ SLASH)).reverse
def lastPart (token : Text) : Text := (token.reverse.takeWhile (· ≠ SLASH)).reverse

/-- The directory a token is expanded in. -/
def dirPart (token : Text) : Text :=
  if basePart token = [] then [DOT]
  else if basePart token = [SLASH] then [SLASH]
  else (basePart token).dropLast.take (PATH_CAP - 1)

/-! ## The system -/

/-- The system calls of the shell. `getdents` has nothing to give where it fails. -/
structure Sys (σ : Type) where
  open_ : σ → Text → Nat → Int × σ
  dup : σ → Int → Int × σ
  dup2 : σ → Int → Int → Int × σ
  close : σ → Int → σ
  getdents : σ → Text → Nat → List Text × σ
  chdir : σ → Text → Int × σ
  execve : σ → Text → List Text → Int × σ
  u_err : σ → Text → σ

/-- `msh_redir_state_t`. -/
abbrev Saved := Fin 3 → Int

def msh_redir_init : Saved := fun _ => -1

/-- The descriptor and the open flags of a redirection. -/
def redirTarget (op : Text) : Option (Fin 3 × Nat) :=
  if op = [LT] then some (0, FS_O_RDONLY)
  else if op = [GT] then some (1, FS_O_CREAT ||| FS_O_WRONLY ||| FS_O_TRUNC)
  else if op = [GT, GT] then some (1, FS_O_CREAT ||| FS_O_WRONLY ||| FS_O_APPEND)
  else if op = [TWO, GT] then some (2, FS_O_CREAT ||| FS_O_WRONLY ||| FS_O_TRUNC)
  else if op = [TWO, GT, GT] then some (2, FS_O_CREAT ||| FS_O_WRONLY ||| FS_O_APPEND)
  else none

section

variable {σ : Type} (S : Sys σ) (g_path : Text)

/-- The stream is kept once, before its first redirection. -/
def saveStream (saved : Saved) (target : Fin 3) (s : σ) : Saved × σ :=
  if saved target = -1 then
    (Function.update saved target (S.dup s target.val).1, (S.dup s target.val).2)
  else (saved, s)

def msh_redir_apply (saved : Saved) (op path : Text) (s : σ) : Int × Saved × σ :=
  match redirTarget op with
  | none => (-1, saved, s)
  | some (target, flags) =>
    match S.open_ s path flags with
    | (fd, s) =>
      if fd < 0 then (-1, saved, s)
      else
        match saveStream S saved target s with
        | (kept, s) =>
          if saved target = -1 ∧ kept target < 0 then (-1, kept, S.close s fd)
          else
            match S.dup2 s fd target.val with
            | (rc, s) => (if rc < 0 then -1 else 0, kept, S.close s fd)

/-- One stream of `msh_redir_restore`. -/
def restoreStream (saved : Saved) (s : σ) (i : Fin 3) : σ :=
  if saved i ≥ 0 then S.close (S.dup2 s (saved i) i.val).2 (saved i) else s

def msh_redir_restore (saved : Saved) (s : σ) : σ :=
  [0, 1, 2].foldl (restoreStream S saved) s

/-! ## A command -/

/-- The loop of `expand_one` over the entries of the directory. -/
def expandLoop (isMatch : Text → Bool) (base pattern : Text) : List Text → List Text → List Text
  | [], argv => argv
  | name :: names, argv =>
    if argv.length ≥ EXEC_ARG_CAP - 1 then argv
    else if name.head? = some DOT ∧ pattern.head? ≠ some DOT then
      expandLoop isMatch base pattern names argv
    else if ¬ isMatch name then expandLoop isMatch base pattern names argv
    else if base.length + name.length ≥ PATH_CAP then expandLoop isMatch base pattern names argv
    else expandLoop isMatch base pattern names (argv ++ [base ++ name])

/-- The arguments with the expansion of a token behind them, or the token itself where
nothing matched. -/
def expandWith (isMatch : Text → Bool) (token : Text) (argv : List Text) (s : σ) : List Text × σ :=
  match S.getdents s (dirPart token) 32 with
  | (names, s) =>
    let out := expandLoop isMatch ((basePart token).take (PATH_CAP - 1)) (lastPart token) names argv
    if out.length = argv.length ∧ argv.length < EXEC_ARG_CAP - 1 then (argv ++ [token], s)
    else (out, s)

def expand_one (token : Text) (argv : List Text) (s : σ) : List Text × σ :=
  expandWith S (wildcard_match (lastPart token)) token argv s

/-- The file a command name stands for. -/
def programPath (name : Text) : Option Text :=
  if SLASH ∈ name then
    if name.length ≥ PATH_CAP then none else some name
  else
    let path := g_path ++ [SLASH] ++ name
    if path.length ≥ PATH_CAP then none
    else if ascii ".prg" <:+ path then some path
    else if path.length + 4 ≥ PATH_CAP then none
    else some (path ++ ascii ".prg")

def run_external (argv : List Text) (s : σ) : Int × σ :=
  match programPath g_path (argv.headD []) with
  | none => (-1, s)
  | some path => S.execve s path argv

def isOperator (text : Text) : Bool := text = [SEMI] ∨ text = [AMP, AMP] ∨ text = [BAR, BAR]

def isRedirection (text : Text) : Bool :=
  text = [GT] ∨ text = [GT, GT] ∨ text = [TWO, GT] ∨ text = [TWO, GT, GT] ∨ text = [LT]

/-- The loop of `run_segment`; no arguments where a redirection fails. -/
def segmentLoop : List Slot → List Text → Saved → σ → Option (List Text) × Saved × σ
  | [], argv, saved, s => (some argv, saved, s)
  | t :: rest, argv, saved, s =>
    if argv.length ≥ EXEC_ARG_CAP - 1 then (some argv, saved, s)
    else if isRedirection t.text then
      match rest with
      | [] => (none, saved, s)
      | f :: rest =>
        match msh_redir_apply S saved t.text f.text s with
        | (rc, saved, s) =>
          if rc < 0 then (none, saved, s) else segmentLoop rest argv saved s
    else if t.glob then
      match expand_one S t.text argv s with
      | (argv, s) => segmentLoop rest argv saved s
    else segmentLoop rest (argv ++ [t.text]) saved s

/-- What a command leaves: its status, whether the shell is to end, and the system. -/
structure Done (σ : Type) where
  rc : Int
  want_exit : Bool
  sys : σ

/-- `run_segment` behind its loop: the builtins and the program. -/
def runArgs (argv : List Text) (saved : Saved) (s : σ) : Done σ :=
  if argv = [] then ⟨0, false, msh_redir_restore S saved s⟩
  else if argv.head? = some (ascii "exit") then ⟨0, true, msh_redir_restore S saved s⟩
  else if argv.head? = some (ascii "cd") then
    if argv.length > 2 then
      ⟨1, false, msh_redir_restore S saved (S.u_err s (ascii "msh: cd: too many arguments\n"))⟩
    else
      match S.chdir s (argv.getD 1 [SLASH]) with
      | (rc, s) =>
        if rc < 0 then ⟨1, false, msh_redir_restore S saved (S.u_err s (ascii "msh: cd failed\n"))⟩
        else ⟨0, false, msh_redir_restore S saved s⟩
  else
    match run_external S g_path argv s with
    | (rc, s) =>
      let s := msh_redir_restore S saved s
      if rc < 0 then
        ⟨127, false, S.u_err (S.u_err (S.u_err s (ascii "msh: command not found or failed: "))
          (argv.headD [])) (ascii "\n")⟩
      else ⟨rc, false, s⟩

/-- `run_segment` with the outcome of its loop. -/
def finishSegment (r : Option (List Text) × Saved × σ) : Done σ :=
  match r with
  | (none, saved, s) =>
    ⟨1, false, S.u_err (msh_redir_restore S saved s) (ascii "msh: redirect failed\n")⟩
  | (some argv, saved, s) => runArgs S g_path argv saved s

def run_segment (segment : List Slot) (s : σ) : Done σ :=
  if segment = [] then ⟨-1, false, s⟩
  else finishSegment S g_path (segmentLoop S segment [] msh_redir_init s)

/-! ## A command line -/

/-- Whether the command behind an operator runs. -/
def shouldRun (op : Text) (last : Int) : Bool :=
  if op = [AMP, AMP] then last = 0 else if op = [BAR, BAR] then last ≠ 0 else true

/-- What is behind the first command and its operator is shorter. -/
theorem tail_dropWhile_lt {α : Type} {l : List α} (h : l ≠ []) (p : α → Bool) :
    (l.dropWhile p).tail.length < l.length := by
  have hle := (List.dropWhile_suffix p (l := l)).length_le
  have hpos := List.length_pos_iff.mpr h
  rw [List.length_tail]
  omega

/-- The loop of `execute_tokens`. -/
def executeLoop (last : Int) (should_run : Bool) (tokens : List Slot) (s : σ) : Done σ :=
  if _h : tokens = [] then ⟨last, false, s⟩
  else
    let segment := tokens.takeWhile fun t => ¬ isOperator t.text
    let rest := tokens.dropWhile fun t => ¬ isOperator t.text
    if segment = [] then
      ⟨2, false, S.u_err s (ascii "msh: syntax error near operator\n")⟩
    else
      let r := if should_run then run_segment S g_path segment s else ⟨last, false, s⟩
      if r.want_exit then r
      else
        match rest.head? with
        | none => ⟨r.rc, false, r.sys⟩
        | some op =>
          if rest.tail = [] then ⟨2, false, S.u_err r.sys (ascii "msh: trailing operator\n")⟩
          else executeLoop r.rc (shouldRun op.text r.rc) rest.tail r.sys
termination_by tokens.length
decreasing_by exact tail_dropWhile_lt _h _

def execute_tokens (tokens : List Slot) (s : σ) : Done σ := executeLoop S g_path 0 true tokens s

end

end System1.Msh
