/-
What quoting is worth in MultiShell.

The passes behind the parser read the token table: which tokens are operators, which are
redirections and the files of redirections, and which bytes of a word are wildcards. That
reading is made explicit here (`Reader.read`), and `execute_tokens_reading` says that the
shell does nothing else: it carries out the reading of its table, on every system.

The same reading can be made of the tokens with the parser's notes, where a quoted byte is
never part of an operator and stands for itself in a pattern. `quoting_iff` says for which
lines the two agree. They agree unless a quoted word spells an operator or, where it is not
the file of a redirection, spells a redirection; or a wildcard is quoted in the last part
of a word that has another one unquoted.
-/
import System1.Msh
import Mathlib.Data.List.Forall2
import Mathlib.Data.List.TakeWhile

set_option autoImplicit false

namespace System1.Msh

open List

/-! ## Patterns -/

/-- What a byte of a pattern stands for. -/
inductive PatChar where
  | star
  | any
  | lit (b : UInt8)
  deriving DecidableEq, Repr

def patMatch : List PatChar → Text → Bool
  | [], text => text = []
  | .star :: pattern, text => text.tails.any (patMatch pattern)
  | .any :: _, [] => false
  | .any :: pattern, _ :: text => patMatch pattern text
  | .lit _ :: _, [] => false
  | .lit b :: pattern, d :: text => b = d && patMatch pattern text

/-- A byte as `wildcard_match` takes it. -/
def patOf (b : UInt8) : PatChar := if b = STAR then .star else if b = QMARK then .any else .lit b

/-- A byte as it was meant. -/
def Mark.pat (m : Mark) : PatChar := if m.quoted then .lit m.byte else patOf m.byte

/-- The matcher of the shell, on a pattern read from plain text. -/
theorem wildcard_match_eq (pattern text : Text) :
    wildcard_match pattern text = patMatch (pattern.map patOf) text := by
  induction pattern generalizing text with
  | nil => rfl
  | cons c pattern ih =>
    unfold wildcard_match
    by_cases hstar : c = STAR
    · simp only [hstar, if_true, map_cons, patOf, patMatch]
      congr 1
      funext rest
      exact ih rest
    by_cases hq : c = QMARK
    · have hne : ¬ QMARK = STAR := by decide
      cases text with
      | nil => simp [hne, hq, patOf, patMatch]
      | cons d text => simp [hne, hq, patOf, patMatch, ih]
    · cases text with
      | nil => simp [hstar, hq, patOf, patMatch]
      | cons d text => simp [hstar, hq, patOf, patMatch, ih]

variable {text : Text}

/-- A text that matches has every byte the pattern asks for. -/
theorem patMatch_lit {pattern : List PatChar} (h : patMatch pattern text = true) {b : UInt8}
    (hb : .lit b ∈ pattern) : b ∈ text := by
  induction pattern generalizing text with
  | nil => cases hb
  | cons c pattern ih =>
    obtain hc | hmem := mem_cons.mp hb
    · subst hc
      cases text with
      | nil => simp [patMatch] at h
      | cons d text =>
        simp only [patMatch, Bool.and_eq_true, decide_eq_true_eq] at h
        simp [h.1]
    -- the byte is asked for behind the first of the pattern
    cases c with
    | star => grind [patMatch, any_eq_true, mem_tails]
    | any =>
      cases text with
      | nil => simp [patMatch] at h
      | cons d text => exact mem_cons_of_mem d (ih h hmem)
    | lit e =>
      cases text with
      | nil => simp [patMatch] at h
      | cons d text => simp_all [patMatch, Bool.and_eq_true]

/-- A byte that is no wildcard, to stand for one. -/
def plainByte (b : UInt8) : UInt8 := if isWild b then 0x78 else b

theorem plainByte_not_wild (b : UInt8) : isWild (plainByte b) = false := by
  unfold plainByte
  split
  · decide
  · next hb => simpa using hb

/-- A pattern of the shell matches its own text with every wildcard filled by a byte. -/
theorem patMatch_plain (text : Text) : patMatch (text.map patOf) (text.map plainByte) = true := by
  induction text with
  | nil => rfl
  | cons c text ih =>
    by_cases hstar : c = STAR
    · -- the star takes the byte that fills it
      simp only [hstar, map_cons, patOf, if_true, patMatch, any_eq_true]
      grind [mem_tails, suffix_cons]
    grind [patOf, patMatch, STAR, QMARK, plainByte, isWild]

/-- A pattern means what was written exactly when no wildcard in it is quoted. -/
theorem pattern_literal_iff (chars : List Mark) :
    (∀ text, patMatch ((chars.map Mark.byte).map patOf) text = patMatch (chars.map Mark.pat) text) ↔
      ∀ m ∈ chars, m.quoted = true → isWild m.byte = false := by
  constructor
  · intro hsame m hm hquoted
    by_contra hwild
    have hmatch := hsame ((chars.map Mark.byte).map plainByte)
    rw [patMatch_plain] at hmatch
    have hlit : PatChar.lit m.byte ∈ chars.map Mark.pat := by
      refine mem_map.mpr ⟨m, hm, ?_⟩
      simp [Mark.pat, hquoted]
    obtain ⟨b, -, hb⟩ := mem_map.mp (patMatch_lit hmatch.symm hlit)
    grind [plainByte_not_wild]
  · intro hplain text
    have hmap : (chars.map Mark.byte).map patOf = chars.map Mark.pat := by
      simp_all [map_map, isWild, decide_eq_false_iff_not, patOf, Mark.pat]
    rw [hmap]

/-! ## The reading -/

/-- What the passes find in the table. -/
inductive Item where
  | connector (op : Text)
  | redirect (op file : Text)
  | noFile (op : Text)
  | word (text : Text)
  | glob (text : Text) (pattern : List PatChar)
  deriving DecidableEq, Repr

/-- A way to look at tokens. -/
structure Reader (α : Type) where
  connects : α → Bool
  redirects : α → Bool
  text : α → Text
  glob : α → Bool
  pattern : α → List PatChar

/-- The shell's: by the text alone. -/
def tableReader : Reader Slot where
  connects := fun t => isOperator t.text
  redirects := fun t => isRedirection t.text
  text := Slot.text
  glob := Slot.glob
  pattern := fun t => (lastPart t.text).map patOf

/-- The bytes of a word behind its last slash. -/
def lastMarks (chars : List Mark) : List Mark :=
  (chars.reverse.takeWhile (·.byte ≠ SLASH)).reverse

/-- The one meant: a word is never an operator, and a quoted wildcard stands for itself. -/
def literalReader : Reader Token where
  connects
    | .operator text => isOperator text
    | .word _ _ => false
  redirects
    | .operator text => isRedirection text
    | .word _ _ => false
  text := Token.text
  glob := Token.glob
  pattern
    | .operator text => (lastPart text).map patOf
    | .word chars _ => (lastMarks chars).map Mark.pat

section

variable {α : Type}

/-- Operators cut the line into commands; in a command a redirection takes the next token
as its file, whatever it is. -/
def Reader.read (R : Reader α) : List α → List Item
  | [] => []
  | t :: rest =>
    let behind := R.read rest
    if R.connects t then .connector (R.text t) :: behind
    else if R.redirects t then
      match rest with
      | [] => [.noFile (R.text t)]
      | f :: rest =>
        if R.connects f then .noFile (R.text t) :: behind
        else .redirect (R.text t) (R.text f) :: R.read rest
    else if R.glob t then .glob (R.text t) (R.pattern t) :: behind
    else .word (R.text t) :: behind

end

def Item.isConnector : Item → Bool
  | .connector _ => true
  | _ => false

/-- A token that is neither an operator nor a redirection. -/
def Reader.argument {α : Type} (R : Reader α) (t : α) : Item :=
  if R.glob t then .glob (R.text t) (R.pattern t) else .word (R.text t)

section

variable {α : Type} {R : Reader α} {t f : α} {rest : List α}

theorem read_connector (ht : R.connects t = true) :
    R.read (t :: rest) = .connector (R.text t) :: R.read rest := by
  conv_lhs => unfold Reader.read
  simp [ht]

theorem read_argument (ht : R.connects t = false) (hr : R.redirects t = false) :
    R.read (t :: rest) = R.argument t :: R.read rest := by
  unfold Reader.argument
  conv_lhs => unfold Reader.read
  simp only [ht, hr, Bool.false_eq_true, if_false]
  split <;> rfl

theorem read_redirect (ht : R.connects t = false) (hr : R.redirects t = true)
    (hf : R.connects f = false) :
    R.read (t :: f :: rest) = .redirect (R.text t) (R.text f) :: R.read rest := by
  conv_lhs => unfold Reader.read
  simp [ht, hr, hf]

theorem read_noFile (ht : R.connects t = false) (hr : R.redirects t = true)
    (hrest : ∀ f ∈ rest.head?, R.connects f = true) :
    R.read (t :: rest) = .noFile (R.text t) :: R.read rest := by
  conv_lhs => unfold Reader.read
  cases rest with
  | nil => simp [ht, hr, Reader.read]
  | cons f rest => simp [ht, hr, hrest f rfl]

theorem argument_not_connector (t : α) : (R.argument t).isConnector = false := by
  unfold Reader.argument
  split <;> rfl

/-- A command is read by itself: it has no connector, and an operator behind it is no file
of its last redirection. -/
theorem read_command {behind : List α} (hbehind : ∀ t ∈ behind.head?, R.connects t = true) :
    ∀ command : List α, (∀ t ∈ command, R.connects t = false) →
      R.read (command ++ behind) = R.read command ++ R.read behind ∧
        ∀ i ∈ R.read command, i.isConnector = false
  | [], _ => by simp [Reader.read]
  | [t], hno => by
      have ht : R.connects t = false := hno t (by simp)
      obtain hr | hr := (R.redirects t).eq_false_or_eq_true
      · grind [singleton_append, Reader.read, Item.isConnector, read_noFile]
      · grind [singleton_append, Reader.read, argument_not_connector, read_argument]
  | t :: f :: command, hno => by
      have ht : R.connects t = false := hno t (by simp)
      have hf : R.connects f = false := hno f (by simp)
      obtain hr | hr := (R.redirects t).eq_false_or_eq_true
      · obtain ⟨heq, hconn⟩ := read_command hbehind command (fun u hu => hno u (by simp [hu]))
        rw [cons_append, cons_append, read_redirect ht hr hf, read_redirect ht hr hf, heq]
        exact ⟨rfl, forall_mem_cons.mpr ⟨rfl, hconn⟩⟩
      obtain ⟨heq, hconn⟩ := read_command hbehind (f :: command)
        (fun u hu => hno u (mem_cons_of_mem t hu))
      rw [cons_append, read_argument ht hr, heq, read_argument ht hr]
      exact ⟨rfl, forall_mem_cons.mpr ⟨argument_not_connector t, hconn⟩⟩

/-- Only no tokens read as nothing. -/
theorem read_eq_nil {tokens : List α} : R.read tokens = [] ↔ tokens = [] := by
  constructor
  · intro h
    cases tokens with
    | nil => rfl
    | cons t rest =>
      exfalso
      unfold Reader.read at h
      repeat' split at h
      all_goals cases h
  · rintro rfl
    rfl

end

/-! ## Carrying a reading out -/

section

variable {σ : Type} (S : Sys σ) (g_path : Text)

/-- The items of a command, in order. -/
def itemsLoop : List Item → List Text → Saved → σ → Option (List Text) × Saved × σ
  | [], argv, saved, s => (some argv, saved, s)
  | i :: rest, argv, saved, s =>
    if argv.length ≥ EXEC_ARG_CAP - 1 then (some argv, saved, s)
    else
      match i with
      | .connector _ => (some argv, saved, s)
      | .redirect op file =>
        match msh_redir_apply S saved op file s with
        | (rc, saved, s) => if rc < 0 then (none, saved, s) else itemsLoop rest argv saved s
      | .noFile _ => (none, saved, s)
      | .word text => itemsLoop rest (argv ++ [text]) saved s
      | .glob text pattern =>
        match expandWith S (patMatch pattern) text argv s with
        | (argv, s) => itemsLoop rest argv saved s

/-- The operator an item is. -/
def Item.op : Item → Text
  | .connector op => op
  | _ => []

/-- The commands of a line, with what decides between them. -/
def executeItems (last : Int) (should_run : Bool) (items : List Item) (s : σ) : Done σ :=
  if _h : items = [] then ⟨last, false, s⟩
  else
    let command := items.takeWhile fun i => ¬ i.isConnector
    let rest := items.dropWhile fun i => ¬ i.isConnector
    if command = [] then
      ⟨2, false, S.u_err s (ascii "msh: syntax error near operator\n")⟩
    else
      let r :=
        if should_run then
          finishSegment S g_path (itemsLoop S command [] msh_redir_init s)
        else ⟨last, false, s⟩
      if r.want_exit then r
      else
        match rest.head? with
        | none => ⟨r.rc, false, r.sys⟩
        | some i =>
          if rest.tail = [] then ⟨2, false, S.u_err r.sys (ascii "msh: trailing operator\n")⟩
          else executeItems r.rc (shouldRun i.op r.rc) rest.tail r.sys
termination_by items.length
decreasing_by exact tail_dropWhile_lt _h _

theorem expand_one_eq (token : Text) (argv : List Text) (s : σ) :
    expand_one S token argv s =
      expandWith S (patMatch ((lastPart token).map patOf)) token argv s := by
  unfold expand_one
  congr 1
  funext name
  exact wildcard_match_eq (lastPart token) name

/-- One row that is an argument. -/
theorem segmentLoop_argument {t : Slot} (ht : isRedirection t.text = false) {rest : List Slot}
    {items : List Item}
    (hrest : ∀ (argv : List Text) (saved : Saved) (s : σ),
      segmentLoop S rest argv saved s = itemsLoop S items argv saved s)
    (argv : List Text) (saved : Saved) (s : σ) :
    segmentLoop S (t :: rest) argv saved s =
      itemsLoop S (tableReader.argument t :: items) argv saved s := by
  unfold segmentLoop itemsLoop Reader.argument
  by_cases hfull : argv.length ≥ EXEC_ARG_CAP - 1
  · rw [if_pos hfull, if_pos hfull]
  rw [if_neg hfull, if_neg hfull, if_neg (by simp [ht])]
  split
  · next hglob =>
    rw [expand_one_eq]
    simp [tableReader, hglob, hrest]
  next hglob =>
  simp only [tableReader, hglob, hrest]
  rfl

/-- `run_segment` does what its rows say. -/
theorem segmentLoop_reading :
    ∀ segment : List Slot, (∀ t ∈ segment, isOperator t.text = false) →
      ∀ (argv : List Text) (saved : Saved) (s : σ),
        segmentLoop S segment argv saved s = itemsLoop S (tableReader.read segment) argv saved s
  | [], _, _, _, _ => rfl
  | [t], hno, argv, saved, s => by
      have ht : tableReader.connects t = false := hno t (by simp)
      obtain hr | hr := (isRedirection t.text).eq_false_or_eq_true
      · have hnil : ∀ f ∈ ([] : List Slot).head?, tableReader.connects f = true := by simp
        rw [read_noFile ht hr hnil]
        unfold segmentLoop itemsLoop
        simp [hr]
      · rw [read_argument ht hr]
        exact segmentLoop_argument S hr (fun _ _ _ => rfl) argv saved s
  | t :: f :: segment, hno, argv, saved, s => by
      have ht : tableReader.connects t = false := hno t (by simp)
      have hf : tableReader.connects f = false := hno f (by simp)
      obtain hr | hr := (isRedirection t.text).eq_false_or_eq_true
      · rw [read_redirect ht hr hf]
        unfold segmentLoop itemsLoop
        simp [hr, segmentLoop_reading segment (fun u hu => hno u (by simp [hu]))]
        rfl
      rw [read_argument ht hr]
      exact segmentLoop_argument S hr
        (segmentLoop_reading (f :: segment) fun u hu => hno u (mem_cons_of_mem t hu))
        argv saved s

/-- A list cut where a property first fails. -/
theorem cut_append {α : Type} {p : α → Bool} {front behind : List α}
    (hfront : ∀ x ∈ front, p x = true) (hbehind : ∀ x ∈ behind.head?, p x = false) :
    (front ++ behind).takeWhile p = front ∧ (front ++ behind).dropWhile p = behind := by
  rw [takeWhile_append_of_pos hfront, dropWhile_append_of_pos hfront]
  cases behind with
  | nil => simp
  | cons x behind => simp [hbehind x rfl]

theorem segment_plain (tokens : List Slot) :
    ∀ t ∈ tokens.takeWhile (fun t => ¬ isOperator t.text), isOperator t.text = false := by
  intro t ht
  simpa using mem_takeWhile_imp ht

theorem operator_behind (tokens : List Slot) :
    ∀ t ∈ (tokens.dropWhile (fun t => ¬ isOperator t.text)).head?, isOperator t.text = true := by
  intro t ht
  have hstop := head?_dropWhile_not (fun t : Slot => ¬ isOperator t.text) tokens
  rw [Option.mem_def.mp ht] at hstop
  simpa using hstop

/-- Cutting the table at operators is cutting its reading at connectors. -/
theorem read_cut (tokens : List Slot) :
    (tableReader.read tokens).takeWhile (fun i => ¬ i.isConnector) =
        tableReader.read (tokens.takeWhile fun t => ¬ isOperator t.text) ∧
      (tableReader.read tokens).dropWhile (fun i => ¬ i.isConnector) =
        tableReader.read (tokens.dropWhile fun t => ¬ isOperator t.text) := by
  have hbehind := operator_behind tokens
  obtain ⟨hread, hnone⟩ := read_command (R := tableReader) hbehind _ (segment_plain tokens)
  rw [takeWhile_append_dropWhile] at hread
  rw [hread]
  apply cut_append
  · intro i hi
    simp [hnone i hi]
  · -- what is behind the command starts with its operator
    cases hrest : tokens.dropWhile (fun t => ¬ isOperator t.text) with
    | nil => simp [Reader.read]
    | cons op rest =>
      rw [hrest] at hbehind
      rw [read_connector (hbehind op rfl)]
      simp [Item.isConnector]

/-- The shell carries out the reading of its table. -/
theorem executeLoop_reading (last : Int) (should_run : Bool) (tokens : List Slot) (s : σ) :
    executeLoop S g_path last should_run tokens s =
      executeItems S g_path last should_run (tableReader.read tokens) s := by
  induction hn : tokens.length using Nat.strong_induction_on
    generalizing last should_run tokens s with
  | _ n ih =>
  by_cases hnil : tokens = []
  · subst hnil
    unfold executeLoop executeItems
    rfl
  unfold executeLoop executeItems
  obtain ⟨htake, hdrop⟩ := read_cut tokens
  rw [dif_neg hnil, dif_neg (mt read_eq_nil.mp hnil)]
  simp only [htake, hdrop, read_eq_nil]
  by_cases hsegment : tokens.takeWhile (fun t => ¬ isOperator t.text) = []
  · rw [if_pos hsegment, if_pos hsegment]
  rw [if_neg hsegment, if_neg hsegment]
  -- the command is the same, whether it runs or not
  have hrun : run_segment S g_path (tokens.takeWhile fun t => ¬ isOperator t.text) s =
      finishSegment S g_path (itemsLoop S
        (tableReader.read (tokens.takeWhile fun t => ¬ isOperator t.text))
          [] msh_redir_init s) := by
    unfold run_segment
    rw [if_neg hsegment, segmentLoop_reading S _ (segment_plain tokens)]
  rw [hrun]
  generalize (if should_run = true then finishSegment S g_path (itemsLoop S
    (tableReader.read (tokens.takeWhile fun t => ¬ isOperator t.text)) [] msh_redir_init s)
    else ⟨last, false, s⟩) = r
  by_cases hexit : r.want_exit = true
  · rw [if_pos hexit, if_pos hexit]
  rw [if_neg hexit, if_neg hexit]
  have hlt := tail_dropWhile_lt hnil fun t => ¬ isOperator t.text
  have hstop := operator_behind tokens
  cases hrest : tokens.dropWhile (fun t => ¬ isOperator t.text) with
  | nil => rfl
  | cons op rest =>
    rw [hrest] at hlt hstop
    rw [read_connector (hstop op rfl)]
    simp only [head?_cons, tail_cons, read_eq_nil]
    by_cases htail : rest = []
    · simp [htail]
    · simp only [htail, if_false]
      exact ih rest.length (hn ▸ hlt) _ _ rest _ rfl

end

/-! ## What the parser notes -/

/-- A byte that ends words is in a word only if it was quoted. -/
def Token.Noted : Token → Prop
  | .operator _ => True
  | .word chars _ => ∀ m ∈ chars, m.quoted = false → isBreak m.byte = false

variable {chars : List Mark} {glob : Bool}

theorem noted_snoc {m : Mark} (h : (Token.word chars glob).Noted)
    (hm : m.quoted = false → isBreak m.byte = false) (glob' : Bool) :
    (Token.word (chars ++ [m]) glob').Noted := by
  intro n hn
  obtain hn | hn := mem_append.mp hn
  · exact h n hn
  · rw [mem_singleton.mp hn]
    exact hm

variable {line : Text}

/-- A word that the lexer completes has its quoting noted. -/
theorem lexWord_noted {quote : Option UInt8} {rest : Text} {t : Token}
    (hchars : (Token.word chars glob).Noted) (h : lexWord quote chars glob line = .ok (t, rest)) :
    t.Noted := by
  fun_induction lexWord quote chars glob line with
  | case1 | case6 | case7 | case9 => cases h
  | case2 =>
    cases h
    exact hchars
  | case3 =>
    cases h
    exact hchars
  | case4 quote chars glob c line hbreak hopen ih => exact ih hchars h
  | case5 chars glob c line hbreak hopen ih => exact ih hchars h
  | case8 quote chars glob c hbreak hopen hclose hesc d line hfull ih =>
    exact ih (noted_snoc hchars (by simp) glob) h
  | case10 quote chars glob c line hbreak hopen hclose hesc hfull ih =>
    refine ih (noted_snoc hchars ?_ _) h
    -- outside quotes a byte that ends words has ended this one
    grind

/-- So has every token, -/
theorem lexToken_noted {rest : Text} {t : Token} (h : lexToken line = .ok (t, rest)) :
    t.Noted := by
  have hempty : (Token.word [] false).Noted := by
    intro m hm
    cases hm
  unfold lexToken at h
  simp only at h
  split at h
  · cases h
    trivial
  split at h
  · injection h with h
    have ht : (lexRedirection line).1.Noted := by
      unfold lexRedirection
      simp only
      repeat' split
      all_goals trivial
    rw [h] at ht
    exact ht
  split at h
  · cases h
    trivial
  split at h
  · cases h
    trivial
  split at h
  · cases h
  · exact lexWord_noted hempty h

/-- and every token of a line. -/
theorem parseLoop_noted {room : Nat} {tokens : List Token} (h : parseLoop room line = .ok tokens) :
    ∀ t ∈ tokens, t.Noted := by
  induction room generalizing line tokens with
  | zero => grind [parseLoop]
  | succ room ih =>
    unfold parseLoop at h
    simp only at h
    split at h
    · cases h
      simp
    split at h
    · cases h
    next t rest htoken =>
    split at h
    · cases h
    next ts hloop =>
    grind [mem_cons.mp, lexToken_noted]

/-- Some byte of the token was quoted. -/
def Token.quoted : Token → Bool
  | .operator _ => false
  | .word chars _ => chars.any Mark.quoted

/-- A wildcard of its pattern was quoted, beside one that was not. -/
def Token.hidesWildcard : Token → Bool
  | .operator _ => false
  | .word chars glob => glob && (lastMarks chars).any fun m => m.quoted && isWild m.byte

/-- An operator or a redirection has a byte that ends words. -/
theorem operator_break (h : isOperator text = true) : text.any isBreak = true := by
  obtain rfl | rfl | rfl := of_decide_eq_true h
  all_goals decide

theorem redirection_break (h : isRedirection text = true) : text.any isBreak = true := by
  obtain rfl | rfl | rfl | rfl | rfl := of_decide_eq_true h
  all_goals decide

/-- So a word that spells one was quoted. -/
theorem spelled_quoted (hnoted : (Token.word chars glob).Noted)
    (h : (chars.map Mark.byte).any isBreak = true) : (Token.word chars glob).quoted = true := by
  rw [any_map] at h
  obtain ⟨m, hm, hbreak⟩ := any_eq_true.mp h
  apply any_eq_true.mpr
  refine ⟨m, hm, ?_⟩
  by_contra hq
  rw [Function.comp_apply, hnoted m hm (by simpa using hq)] at hbreak
  cases hbreak

/-! ## The two readings -/

/-- Two items mean the same: they are the same, or two patterns for the same names. -/
inductive Item.Same : Item → Item → Prop
  | refl (i : Item) : Same i i
  | glob {text : Text} {p q : List PatChar} (h : ∀ name, patMatch p name = patMatch q name) :
      Same (.glob text p) (.glob text q)

/-- The shell reads the tokens of a line as they were meant. -/
def ReadLiterally (tokens : List Token) : Prop :=
  List.Forall₂ Item.Same (tableReader.read (tokens.map Token.slot)) (literalReader.read tokens)

/-- The condition. The file of a redirection may spell a redirection, since the shell does
not look at it; nothing else that is quoted may. -/
def plain : List Token → Bool
  | [] => true
  | t :: rest =>
    let behind := plain rest
    if literalReader.connects t then behind
    else if literalReader.redirects t then
      match rest with
      | [] => true
      | f :: rest =>
        if literalReader.connects f then behind
        else ¬ (f.quoted ∧ isOperator f.text) ∧ plain rest
    else
      ¬ (t.quoted ∧ isOperator t.text) ∧ ¬ (t.quoted ∧ isRedirection t.text) ∧
        ¬ t.hidesWildcard ∧ behind

variable {is js : List Item}

/-- Operators of the line are read alike. -/
theorem operator_connects {t : Token} (h : literalReader.connects t = true) :
    tableReader.connects t.slot = true := by
  cases t with
  | operator text => exact h
  | word chars glob => cases h

theorem operator_redirects {t : Token} (hc : literalReader.connects t = false)
    (h : literalReader.redirects t = true) :
    tableReader.connects t.slot = false ∧ tableReader.redirects t.slot = true := by
  cases t with
  | operator text => exact ⟨hc, h⟩
  | word chars glob => cases h

/-- A token the line does not have as an operator is taken for one if a quoted word spells
one. -/
theorem mistaken {spells : Text → Bool} (hspells : ∀ {text}, spells text = true →
    text.any isBreak = true) {t : Token} (hnoted : t.Noted)
    (hop : ∀ text, t = .operator text → spells text = false) :
    spells t.text = (t.quoted && spells t.text) := by
  obtain hs | hs := (spells t.text).eq_false_or_eq_true
  · cases t with
    | operator text => exact absurd hs (by simp [Token.text, hop text rfl])
    | word chars glob =>
      rw [hs, spelled_quoted hnoted (hspells hs)]
      rfl
  · simp [hs]

theorem mistaken_connects {t : Token} (hnoted : t.Noted) (hc : literalReader.connects t = false) :
    tableReader.connects t.slot = (t.quoted && isOperator t.text) := by
  refine mistaken operator_break hnoted ?_
  rintro text rfl
  exact hc

theorem mistaken_redirects {t : Token} (hnoted : t.Noted)
    (hr : literalReader.redirects t = false) :
    tableReader.redirects t.slot = (t.quoted && isRedirection t.text) := by
  refine mistaken redirection_break hnoted ?_
  rintro text rfl
  exact hr

theorem lastPart_marks (chars : List Mark) :
    lastPart (chars.map Mark.byte) = (lastMarks chars).map Mark.byte := by
  unfold lastPart lastMarks
  rw [← map_reverse, takeWhile_map, map_reverse]
  rfl

/-- Two patterns are alike if they match the same names. -/
theorem same_glob_iff {p q : List PatChar} :
    (Item.glob text p).Same (.glob text q) ↔ ∀ name, patMatch p name = patMatch q name := by
  constructor
  · intro h name
    cases h with
    | refl => rfl
    | glob h => exact h name
  · exact Item.Same.glob

/-- An argument is read alike unless it hides a wildcard. -/
theorem argument_same_iff (t : Token) :
    (tableReader.argument t.slot).Same (literalReader.argument t) ↔ t.hidesWildcard = false := by
  cases t with
  | operator text => exact ⟨fun _ => rfl, fun _ => .refl _⟩
  | word chars glob =>
    cases glob with
    | false => exact ⟨fun _ => rfl, fun _ => .refl _⟩
    | true =>
      have htable : tableReader.argument (Token.word chars true).slot =
          .glob (chars.map Mark.byte) (((lastMarks chars).map Mark.byte).map patOf) := by
        rw [← lastPart_marks]
        rfl
      have hliteral : literalReader.argument (Token.word chars true) =
          .glob (chars.map Mark.byte) ((lastMarks chars).map Mark.pat) := rfl
      rw [htable, hliteral, same_glob_iff, pattern_literal_iff]
      simp [Token.hidesWildcard]

def Item.isArgument : Item → Bool
  | .word _ => true
  | .glob _ _ => true
  | _ => false

/-- Items that mean the same differ in a pattern at most. -/
theorem Item.Same.congr {β : Type} {f : Item → β} {i j : Item} (h : i.Same j)
    (hf : ∀ text p q, f (.glob text p) = f (.glob text q)) : f i = f j := by
  cases h with
  | refl => rfl
  | glob h => exact hf _ _ _

theorem argument_isArgument {α : Type} (R : Reader α) (t : α) :
    (R.argument t).isArgument = true := by
  unfold Reader.argument
  split <;> rfl

/-- A redirection is no argument, with a file or without. -/
theorem read_redirection_head {α : Type} {R : Reader α} {t : α} (ht : R.connects t = false)
    (hr : R.redirects t = true) (rest : List α) :
    ∃ i is, R.read (t :: rest) = i :: is ∧ i.isArgument = false := by
  cases rest with
  | nil => exact ⟨_, _, read_noFile ht hr (by simp), rfl⟩
  | cons f rest =>
    obtain hf | hf := (R.connects f).eq_false_or_eq_true
    · exact ⟨_, _, read_noFile ht hr (by simpa using hf), rfl⟩
    · exact ⟨_, _, read_redirect ht hr hf, rfl⟩

/-! One token, or a redirection with its file, at a time: -/

section

variable {t f : Token} {rest : List Token}

theorem readLiterally_connector (hc : literalReader.connects t = true) :
    ReadLiterally (t :: rest) ↔ ReadLiterally rest := by
  unfold ReadLiterally
  rw [map_cons, read_connector (operator_connects hc), read_connector hc, forall₂_cons]
  exact and_iff_right (.refl _)

/-- A redirection without a file is read alike. -/
theorem readLiterally_noFile (hc : literalReader.connects t = false)
    (hr : literalReader.redirects t = true)
    (hrest : ∀ f ∈ rest.head?, literalReader.connects f = true) :
    ReadLiterally (t :: rest) ↔ ReadLiterally rest := by
  obtain ⟨htc, htr⟩ := operator_redirects hc hr
  have hrest' : ∀ g ∈ (rest.map Token.slot).head?, tableReader.connects g = true := by
    intro g hg
    rw [head?_map] at hg
    obtain ⟨f, hf, rfl⟩ := Option.map_eq_some_iff.mp hg
    exact operator_connects (hrest f hf)
  unfold ReadLiterally
  rw [map_cons, read_noFile htc htr hrest', read_noFile hc hr hrest, forall₂_cons]
  exact and_iff_right (.refl _)

/-- The file of a redirection must not be taken for an operator. -/
theorem readLiterally_file (hnoted : f.Noted) (hc : literalReader.connects t = false)
    (hr : literalReader.redirects t = true) (hf : literalReader.connects f = false) :
    ReadLiterally (t :: f :: rest) ↔
      ¬ (f.quoted = true ∧ isOperator f.text = true) ∧ ReadLiterally rest := by
  obtain ⟨htc, htr⟩ := operator_redirects hc hr
  rw [← Bool.and_eq_true, ← mistaken_connects hnoted hf]
  unfold ReadLiterally
  rw [map_cons, map_cons, read_redirect hc hr hf]
  obtain hbad | hbad := (tableReader.connects f.slot).eq_false_or_eq_true
  · rw [read_noFile htc htr (by simpa using hbad), forall₂_cons]
    simp only [hbad, not_true_eq_false, false_and, iff_false, not_and]
    intro hsame
    cases hsame
  · rw [read_redirect htc htr hbad, forall₂_cons]
    simp only [hbad, Bool.false_eq_true, not_false_eq_true, true_and]
    exact and_iff_right (Item.Same.refl _)

/-- A word must not be taken for an operator or a redirection, nor hide a wildcard. -/
theorem readLiterally_argument (hnoted : t.Noted) (hc : literalReader.connects t = false)
    (hr : literalReader.redirects t = false) :
    ReadLiterally (t :: rest) ↔
      ¬ (t.quoted = true ∧ isOperator t.text = true) ∧
      ¬ (t.quoted = true ∧ isRedirection t.text = true) ∧
      ¬ t.hidesWildcard = true ∧ ReadLiterally rest := by
  rw [← Bool.and_eq_true, ← Bool.and_eq_true, ← mistaken_connects hnoted hc,
    ← mistaken_redirects hnoted hr]
  unfold ReadLiterally
  rw [map_cons, read_argument hc hr]
  -- an item that is no argument cannot be read for a word
  have hother : ∀ {i : Item} {is : List Item}, i.isArgument = false →
      ¬ List.Forall₂ Item.Same (i :: is) (literalReader.argument t :: literalReader.read rest) := by
    intro i is hi h
    have harg := (forall₂_cons.mp h).1.congr (f := Item.isArgument) fun _ _ _ => rfl
    rw [hi, argument_isArgument] at harg
    cases harg
  obtain hbadc | hbadc := (tableReader.connects t.slot).eq_false_or_eq_true
  · rw [read_connector hbadc]
    simp only [hbadc, not_true_eq_false, false_and, iff_false]
    exact hother rfl
  obtain hbadr | hbadr := (tableReader.redirects t.slot).eq_false_or_eq_true
  · obtain ⟨i, is, hread, hi⟩ := read_redirection_head hbadc hbadr (rest.map Token.slot)
    grind
  rw [read_argument hbadc hbadr, forall₂_cons, argument_same_iff]
  simp [hbadc, hbadr]

end

/-- The shell reads a line literally exactly when the line is plain. -/
theorem readLiterally_iff (tokens : List Token) (hnoted : ∀ t ∈ tokens, t.Noted) :
    ReadLiterally tokens ↔ plain tokens = true := by
  induction hn : tokens.length using Nat.strong_induction_on generalizing tokens with
  | _ n ih =>
  cases tokens with
  | nil => simp [ReadLiterally, Reader.read, plain]
  | cons t rest =>
  have hrest : ∀ u ∈ rest, u.Noted := fun u hu => hnoted u (by simp [hu])
  have ihrest := ih rest.length (by simp [← hn]) rest hrest rfl
  unfold plain
  obtain hc | hc := (literalReader.connects t).eq_false_or_eq_true
  · rw [readLiterally_connector hc, ihrest]
    simp only [hc, if_true]
  obtain hr | hr := (literalReader.redirects t).eq_false_or_eq_true
  · simp only [hc, hr, Bool.false_eq_true, if_false, if_true]
    cases rest with
    | nil =>
      rw [readLiterally_noFile hc hr (by simp), ihrest]
      rfl
    | cons f rest =>
      obtain hf | hf := (literalReader.connects f).eq_false_or_eq_true
      · rw [readLiterally_noFile hc hr (by simpa using hf), ihrest]
        simp only [hf, if_true]
      have hlt : rest.length < n := by
        rw [← hn, length_cons, length_cons]
        omega
      rw [readLiterally_file (hnoted f (by simp)) hc hr hf,
        ih rest.length hlt rest (fun u hu => hrest u (by simp [hu])) rfl]
      simp only [hf, Bool.false_eq_true, if_false, decide_eq_true_eq]
  · rw [readLiterally_argument (hnoted t (by simp)) hc hr, ihrest]
    simp only [hc, hr, Bool.false_eq_true, if_false, decide_eq_true_eq]

/-! ## What follows for a run -/

section

variable {σ : Type} (S : Sys σ) (g_path : Text)

section

variable (h : List.Forall₂ Item.Same is js)

include h

/-- The shell does the same with items that are alike. -/
theorem itemsLoop_same (argv : List Text) (saved : Saved) (s : σ) :
    itemsLoop S is argv saved s = itemsLoop S js argv saved s := by
  induction h generalizing argv saved s with
  | nil => rfl
  | @cons i j is js hsame _ ih =>
    unfold itemsLoop
    cases hsame with
    | refl =>
      cases i with
      | connector op => rfl
      | redirect | word | glob => simp [ih]
      | noFile op => rfl
    | glob hpat => simp [ih, funext hpat]

/-- The same items are cut at the same places. -/
theorem same_cut :
    List.Forall₂ Item.Same (is.takeWhile fun i => ¬ i.isConnector)
        (js.takeWhile fun i => ¬ i.isConnector) ∧
      List.Forall₂ Item.Same (is.dropWhile fun i => ¬ i.isConnector)
        (js.dropWhile fun i => ¬ i.isConnector) := by
  induction h with
  | nil => exact ⟨.nil, .nil⟩
  | @cons i j is js hsame htail ih =>
    have hconn : i.isConnector = j.isConnector := hsame.congr fun _ _ _ => rfl
    by_cases hi : i.isConnector = true
    · have hj := hconn ▸ hi
      simp [hi, hj, hsame, htail]
    · have hj := hconn ▸ hi
      simpa [hi, hj, hsame] using ih

/-- Readings that mean the same are carried out alike. -/
theorem executeItems_same (last : Int) (should_run : Bool) (s : σ) :
    executeItems S g_path last should_run is s = executeItems S g_path last should_run js s := by
  induction hn : is.length using Nat.strong_induction_on
    generalizing last should_run is js s with
  | _ n ih =>
  have hnil : ∀ {is js : List Item}, List.Forall₂ Item.Same is js → (is = [] ↔ js = []) := by
    intro is js h
    cases h <;> simp
  by_cases his : is = []
  · have hjs := (hnil h).mp his
    subst his hjs
    rfl
  obtain ⟨htake, hdrop⟩ := same_cut h
  unfold executeItems
  rw [dif_neg his, dif_neg (mt (hnil h).mpr his)]
  simp only [hnil htake, itemsLoop_same S htake]
  by_cases hcommand : js.takeWhile (fun i => ¬ i.isConnector) = []
  · rw [if_pos hcommand, if_pos hcommand]
  rw [if_neg hcommand, if_neg hcommand]
  generalize (if should_run = true then finishSegment S g_path (itemsLoop S
    (js.takeWhile fun i => ¬ i.isConnector) [] msh_redir_init s) else ⟨last, false, s⟩) = r
  by_cases hexit : r.want_exit = true
  · rw [if_pos hexit, if_pos hexit]
  rw [if_neg hexit, if_neg hexit]
  have hlt := tail_dropWhile_lt his fun i => ¬ i.isConnector
  generalize is.dropWhile (fun i => ¬ i.isConnector) = behind at hdrop hlt
  generalize js.dropWhile (fun i => ¬ i.isConnector) = behind' at hdrop
  cases hdrop with
  | nil => rfl
  | @cons i j is js hsame htail =>
    have hop : i.op = j.op := hsame.congr fun _ _ _ => rfl
    simp only [head?_cons, tail_cons, hnil htail, hop]
    grind

end

end

/-- MultiShell carries out the reading of its token table. That is the literal reading of
the line exactly where the line is plain, and there the whole run is the literal one. -/
theorem quoting_iff {line : Text} {tokens : List Token} (h : parse_line line = .ok tokens) :
    (∀ (σ : Type) (S : Sys σ) (g_path : Text) (s : σ),
      execute_tokens S g_path (tokens.map Token.slot) s =
        executeItems S g_path 0 true (tableReader.read (tokens.map Token.slot)) s) ∧
    (ReadLiterally tokens ↔ plain tokens = true) ∧
    (plain tokens = true → ∀ (σ : Type) (S : Sys σ) (g_path : Text) (s : σ),
      execute_tokens S g_path (tokens.map Token.slot) s =
        executeItems S g_path 0 true (literalReader.read tokens) s) := by
  have hiff := readLiterally_iff tokens (parseLoop_noted h)
  have hrun : ∀ (σ : Type) (S : Sys σ) (g_path : Text) (s : σ),
      execute_tokens S g_path (tokens.map Token.slot) s =
        executeItems S g_path 0 true (tableReader.read (tokens.map Token.slot)) s :=
    fun σ S g_path s => executeLoop_reading S g_path 0 true _ s
  refine ⟨hrun, hiff, ?_⟩
  intro hplain σ S g_path s
  rw [hrun]
  exact executeItems_same S g_path (hiff.mpr hplain) 0 true s

/-- A system that notes the programs it starts; every directory holds `ab`. -/
def recorder : Sys (List (List Text)) where
  open_ := fun s _ _ => (3, s)
  dup := fun s _ => (4, s)
  dup2 := fun s _ _ => (0, s)
  close := fun s _ => s
  getdents := fun s _ _ => ([[0x61, 0x62]], s)
  chdir := fun s _ => (0, s)
  execve := fun s _ argv => (0, s ++ [argv])
  u_err := fun s _ => s

/-- `echo 'a b' >> "2>" ; ls a*` -/
def plainLine : Text :=
  [0x65, 0x63, 0x68, 0x6F, 0x20, 0x27, 0x61, 0x20, 0x62, 0x27, 0x20, 0x3E, 0x3E, 0x20]
    ++ [0x22, 0x32, 0x3E, 0x22, 0x20, 0x3B, 0x20, 0x6C, 0x73, 0x20, 0x61, 0x2A]

/-- Its quoted blank and its file keep their meaning. -/
theorem plainLine_literal :
    ∃ tokens, parse_line plainLine = .ok tokens ∧ ReadLiterally tokens := by
  have hparse : ∃ tokens, parse_line plainLine = .ok tokens ∧ plain tokens = true := by
    refine ⟨_, rfl, ?_⟩
    decide +kernel
  obtain ⟨tokens, htokens, hplain⟩ := hparse
  exact ⟨tokens, htokens, (quoting_iff htokens).2.1.mpr hplain⟩

/-- `echo ";" ls` starts `ls`, and `echo a*\?` matches `ab`. -/
theorem quoted_operator_and_wildcard :
    (∃ tokens, parse_line [0x65, 0x63, 0x68, 0x6F, 0x20, 0x22, 0x3B, 0x22, 0x20, 0x6C, 0x73] =
        .ok tokens ∧
      (execute_tokens recorder [] (tokens.map Token.slot) []).sys =
        [[[0x65, 0x63, 0x68, 0x6F]], [[0x6C, 0x73]]] ∧
      (executeItems recorder [] 0 true (literalReader.read tokens) []).sys =
        [[[0x65, 0x63, 0x68, 0x6F], [SEMI], [0x6C, 0x73]]]) ∧
    ∃ tokens, parse_line [0x65, 0x63, 0x68, 0x6F, 0x20, 0x61, 0x2A, 0x5C, 0x3F] =
        .ok tokens ∧
      (execute_tokens recorder [] (tokens.map Token.slot) []).sys =
        [[[0x65, 0x63, 0x68, 0x6F], [0x61, 0x62]]] ∧
      (executeItems recorder [] 0 true (literalReader.read tokens) []).sys =
        [[[0x65, 0x63, 0x68, 0x6F], [0x61, 0x2A, 0x3F]]] := by
  refine ⟨⟨_, rfl, ?_, ?_⟩, ⟨_, rfl, ?_, ?_⟩⟩
  all_goals decide +kernel

end System1.Msh
