/-
The syntax of MultiShell: what a pattern matches, how a word is quoted, what a command list
runs.

A pattern is a product of languages, one for each of its bytes, and `wildcard_match` decides
membership. A word in single quotes comes back from the parser as it is, where each quote in
it is written as quote, backslash, quote, quote.
-/
import System1.MshQuoting
import Mathlib.Computability.Language

set_option autoImplicit false

namespace System1.Msh

open List

/-! ## Patterns -/

/-- The texts a byte of a pattern stands for. -/
def byteLanguage (c : UInt8) : Language UInt8 :=
  {text | c = STAR ∨ c = QMARK ∧ text.length = 1 ∨ text = [c]}

def patternLanguage (pattern : Text) : Language UInt8 := (pattern.map byteLanguage).prod

theorem mem_patternLanguage_cons {c : UInt8} {pattern text : Text} :
    text ∈ patternLanguage (c :: pattern) ↔
      ∃ front ∈ byteLanguage c, ∃ rest ∈ patternLanguage pattern, front ++ rest = text := by
  unfold patternLanguage
  rw [map_cons, prod_cons, Language.mem_mul]

/-- A byte that is not a star takes one byte of the text. -/
theorem mem_byteLanguage {c : UInt8} (hstar : c ≠ STAR) {front : Text} :
    front ∈ byteLanguage c ↔ ∃ d, front = [d] ∧ (c = QMARK ∨ c = d) := by
  constructor
  · rintro (h | ⟨hq, hone⟩ | rfl)
    · exact absurd h hstar
    · obtain ⟨d, rfl⟩ := length_eq_one_iff.mp hone
      exact ⟨d, rfl, .inl hq⟩
    · exact ⟨c, rfl, .inr rfl⟩
  · rintro ⟨d, rfl, hq | rfl⟩
    · exact .inr (.inl ⟨hq, rfl⟩)
    · exact .inr (.inr rfl)

/-- **Wildcards.** A text matches a pattern exactly where it is in the pattern's language. -/
theorem wildcard_match_iff (pattern text : Text) :
    wildcard_match pattern text = true ↔ text ∈ patternLanguage pattern := by
  induction pattern generalizing text with
  | nil => exact decide_eq_true_iff.trans (Language.mem_one text).symm
  | cons c pattern ih =>
    rw [mem_patternLanguage_cons]
    unfold wildcard_match
    by_cases hstar : c = STAR
    · rw [if_pos hstar, any_eq_true]
      constructor
      · rintro ⟨rest, htail, hmatch⟩
        obtain ⟨front, hsplit⟩ := (mem_tails rest text).mp htail
        exact ⟨front, .inl hstar, rest, (ih rest).mp hmatch, hsplit⟩
      · grind [mem_tails]
    rw [if_neg hstar]
    simp only [mem_byteLanguage hstar]
    grind

/-! ## Quoted words -/

/-- A byte between single quotes; a quote is escaped outside of them. -/
def quoteByte (c : UInt8) : Text := if c = QUOTE then [QUOTE, BACKSLASH, QUOTE, QUOTE] else [c]

def quoteWord (word : Text) : Text := QUOTE :: word.flatMap quoteByte ++ [QUOTE]

def quoteLine (words : List Text) : Text := [SPACE].intercalate (words.map quoteWord)

/-- The parser's note of a word all of which is quoted. -/
def quotedToken (word : Text) : Token := .word (word.map (⟨·, true⟩)) false

/-- The end of the line, or a blank. -/
def WordEnds (line : Text) : Prop := ∀ c ∈ line.head?, c = SPACE

/-- A word ends where it should. -/
theorem lexWord_end {rest : Text} (h : WordEnds rest) (chars : List Mark) :
    lexWord none chars false rest = .ok (.word chars false, rest) := by
  cases rest with
  | nil => rfl
  | cons c rest =>
    obtain rfl : c = SPACE := h c rfl
    unfold lexWord
    exact if_pos ⟨rfl, rfl⟩

theorem lexWord_open (chars : List Mark) (rest : Text) :
    lexWord none chars false (QUOTE :: rest) = lexWord (some QUOTE) chars false rest := by
  conv_lhs => unfold lexWord
  rw [if_neg (by decide), if_pos ⟨rfl, .inl rfl⟩]

theorem lexWord_close (chars : List Mark) (rest : Text) :
    lexWord (some QUOTE) chars false (QUOTE :: rest) = lexWord none chars false rest := by
  conv_lhs => unfold lexWord
  rw [if_neg (by decide), if_neg (by decide), if_pos rfl]

/-- The parser behind an opening quote. -/
theorem lexWord_quoted {rest : Text} (h : WordEnds rest) (word : Text) (chars : List Mark)
    (hlen : chars.length + word.length < TOKEN_LEN) :
    lexWord (some QUOTE) chars false (word.flatMap quoteByte ++ QUOTE :: rest) =
      .ok (.word (chars ++ word.map (⟨·, true⟩)) false, rest) := by
  induction word generalizing chars with
  | nil =>
    rw [map_nil, append_nil]
    exact (lexWord_close chars rest).trans (lexWord_end h chars)
  | cons c word ih =>
    rw [length_cons] at hlen
    have hroom : ¬ chars.length + 1 ≥ TOKEN_LEN := by omega
    have hnext := ih (chars ++ [⟨c, true⟩]) (by rw [length_append]; simp; omega)
    rw [append_assoc, singleton_append] at hnext
    rw [map_cons, flatMap_cons, ← hnext, quoteByte]
    split
    · next hc =>
      -- the word is closed, has an escaped quote behind it, and is opened again
      rw [hc]
      refine (lexWord_close chars _).trans ?_
      show lexWord none chars false (BACKSLASH :: QUOTE :: QUOTE :: _) = _
      conv_lhs => unfold lexWord
      rw [if_neg (by decide), if_neg (by decide), if_neg (by decide), if_pos (by decide)]
      exact (if_neg hroom).trans (lexWord_open _ _)
    · next hc =>
      rw [singleton_append, cons_append]
      conv_lhs => unfold lexWord
      simp [hroom, Ne.symm hc]

/-- A quoted word is one token. -/
theorem lexToken_quoted {rest word : Text} (h : WordEnds rest) (hlen : word.length < TOKEN_LEN) :
    lexToken (quoteWord word ++ rest) = .ok (quotedToken word, rest) := by
  have hquoted := lexWord_quoted h word [] (by simpa using hlen)
  unfold quoteWord
  rw [append_assoc, cons_append, singleton_append]
  refine Eq.trans ?_ ((lexWord_open [] _).trans hquoted)
  unfold lexToken
  simp [QUOTE, SEMI, AMP, BAR, GT, LT, TWO]

/-- A line with a word in front. -/
theorem quoteLine_cons (word : Text) (words : List Text) : ∃ rest, WordEnds rest ∧
    quoteLine (word :: words) = quoteWord word ++ rest ∧
    rest.dropWhile isBlank = (quoteLine words).dropWhile isBlank := by
  cases words with
  | nil => exact ⟨[], nofun, rfl, rfl⟩
  | cons w words =>
    refine ⟨SPACE :: quoteLine (w :: words), ?_, ?_, dropWhile_cons_of_pos rfl⟩
    · rintro c ⟨⟩
      rfl
    · unfold quoteLine
      simp [List.intercalate]

/-- A line of quoted words is parsed to the words. -/
theorem parseLoop_quoteLine {room : Nat} {words : List Text} (hroom : words.length ≤ room)
    (hlen : ∀ w ∈ words, w.length < TOKEN_LEN) :
    parseLoop room (quoteLine words) = .ok (words.map quotedToken) := by
  induction words generalizing room with
  | nil => cases room <;> rfl
  | cons word words ih =>
    obtain ⟨rest, hends, hline, hdrop⟩ := quoteLine_cons word words
    obtain ⟨hword, hwords⟩ := forall_mem_cons.mp hlen
    rw [length_cons] at hroom
    obtain ⟨room, rfl⟩ : ∃ n, room = n + 1 := ⟨room - 1, by omega⟩
    have hnext : parseLoop room rest = parseLoop room (quoteLine words) := by
      unfold parseLoop
      rw [hdrop]
    have hstart : (quoteWord word ++ rest).dropWhile isBlank = quoteWord word ++ rest := rfl
    rw [parseLoop, hline, hstart, if_neg (by simp [quoteWord, QUOTE, HASH]),
      lexToken_quoted hends hword]
    dsimp only
    rw [hnext, ih (by omega) hwords]
    rfl

/-- **Quoting.** The words of a line that quotes all of them come back from the parser, and
none is a pattern. -/
theorem quoted_line_parsed (words : List Text) (hcount : words.length ≤ TOKEN_CAP)
    (hlen : ∀ w ∈ words, w.length ≤ 95) : ∃ tokens, parse_line (quoteLine words) = .ok tokens ∧
      tokens.map Token.slot = words.map (⟨·, false⟩) := by
  refine ⟨words.map quotedToken, parseLoop_quoteLine hcount fun w hw => ?_, ?_⟩
  · exact Nat.lt_succ_of_le (hlen w hw)
  · simp [map_map, quotedToken, Token.slot, Token.text, Token.glob, Function.comp_def]

theorem quote_and_empty_word_parsed : ∃ tokens,
    parse_line (quoteLine [[QUOTE, STAR], []]) = .ok tokens ∧
      tokens.map Token.slot = [⟨[QUOTE, STAR], false⟩, ⟨[], false⟩] :=
  quoted_line_parsed [[QUOTE, STAR], []] (by decide) (by decide)

/-! ## Command lists -/

section

variable {σ : Type}

/-- The loop of `execute_tokens` over any `run_segment` and `u_err`: `start` is the index of
the first of the `tokens` that are left. -/
def executeFrom (run_segment : (start stop : Nat) → σ → Done σ) (u_err : σ → Text → σ)
    (start : Nat) (last : Int) (should_run : Bool) (tokens : List Slot) (s : σ) : Done σ :=
  if _h : tokens = [] then ⟨last, false, s⟩
  else
    let segment := tokens.takeWhile fun t => ¬ isOperator t.text
    let rest := tokens.dropWhile fun t => ¬ isOperator t.text
    let stop := start + segment.length
    if segment = [] then ⟨2, false, u_err s (ascii "msh: syntax error near operator\n")⟩
    else
      let r := if should_run then run_segment start stop s else ⟨last, false, s⟩
      if r.want_exit then r
      else rest.head?.elim ⟨r.rc, false, r.sys⟩ fun op =>
        if rest.tail = [] then ⟨2, false, u_err r.sys (ascii "msh: trailing operator\n")⟩
        else executeFrom run_segment u_err (stop + 1) r.rc (shouldRun op.text r.rc) rest.tail r.sys
termination_by tokens.length
decreasing_by exact tail_dropWhile_lt _h _

/-- A range of a token table, as the segment it is. -/
def rangeRunner (S : Sys σ) (g_path : Text) (table : List Slot) (start stop : Nat) : σ → Done σ :=
  run_segment S g_path ((table.drop start).take (stop - start))

/-- The model of `execute_tokens` is this loop with the model of `run_segment`. -/
theorem executeLoop_eq (S : Sys σ) (g_path : Text) {table tokens : List Slot} {start : Nat}
    (h : tokens = table.drop start) (last : Int) (should_run : Bool) (s : σ) :
    executeLoop S g_path last should_run tokens s =
      executeFrom (rangeRunner S g_path table) S.u_err start last should_run tokens s := by
  induction hn : tokens.length using Nat.strong_induction_on
    generalizing start last should_run tokens s with
  | _ n ih =>
  rw [executeLoop, executeFrom]
  by_cases hnil : tokens = []
  · rw [dif_pos hnil, dif_pos hnil]
  rw [dif_neg hnil, dif_neg hnil]
  have hsplit := takeWhile_append_dropWhile (p := fun t : Slot => ¬ isOperator t.text)
    (l := tokens)
  have hshort := hn ▸ tail_dropWhile_lt hnil fun t : Slot => ¬ isOperator t.text
  generalize tokens.takeWhile (fun t => ¬ isOperator t.text) = segment at hsplit ⊢
  generalize tokens.dropWhile (fun t => ¬ isOperator t.text) = rest at hsplit hshort ⊢
  have hrun : rangeRunner S g_path table start (start + segment.length) =
      run_segment S g_path segment := by
    unfold rangeRunner
    rw [← h, Nat.add_sub_cancel_left, ← hsplit, take_left]
  have htail : rest.tail = table.drop (start + segment.length + 1) := by
    rw [← drop_one, ← drop_drop, ← drop_drop, ← h, ← hsplit, drop_left]
  simp only [hrun, ih _ hshort htail _ _ _ rfl]
  cases rest.head? <;> rfl

/-- The segments behind the first one, each with the operator in front of it. -/
abbrev Tail := List (Slot × List Slot)

def tokensOf (first : List Slot) (rest : Tail) : List Slot :=
  first ++ rest.flatMap fun x => x.1 :: x.2

/-- One more segment, at the right of what has been evaluated: `acc` has its end and its
outcome. Nothing runs behind an exit, and the operator decides by the last status. -/
def evalNext (run_segment : (start stop : Nat) → σ → Done σ) (acc : Nat × Done σ)
    (x : Slot × List Slot) : Nat × Done σ :=
  let stop := acc.1 + 1 + x.2.length
  (stop,
    if acc.2.want_exit ∨ ¬ shouldRun x.1.text acc.2.rc then acc.2
    else run_segment (acc.1 + 1) stop acc.2.sys)

/-- The list, evaluated from the left. -/
def evalList (run_segment : (start stop : Nat) → σ → Done σ) (first : List Slot) (rest : Tail)
    (s : σ) : Done σ :=
  (rest.foldl (evalNext run_segment) (first.length, run_segment 0 first.length s)).2

structure IsSegment (segment : List Slot) : Prop where
  nonempty : segment ≠ []
  plain : ∀ t ∈ segment, isOperator t.text = false

variable {run : (start stop : Nat) → σ → Done σ}

theorem foldl_evalNext_exit (rest : Tail) (acc : Nat × Done σ) (h : acc.2.want_exit = true) :
    (rest.foldl (evalNext run) acc).2 = acc.2 := by
  induction rest generalizing acc with
  | nil => rfl
  | cons x rest ih =>
    have hsame : (evalNext run acc x).2 = acc.2 := if_pos (.inl h)
    rw [foldl_cons, ih _ (by rw [hsame]; exact h), hsame]

/-- The next command runs if its operator says so. -/
theorem evalNext_going {r : Done σ} (h : r.want_exit = false) (stop : Nat) (x : Slot × List Slot) :
    evalNext run (stop, r) x = (stop + 1 + x.2.length,
      if shouldRun x.1.text r.rc then run (stop + 1) (stop + 1 + x.2.length) r.sys
      else ⟨r.rc, false, r.sys⟩) := by
  unfold evalNext
  rw [h]
  cases shouldRun x.1.text r.rc with
  | false => simp [← h]
  | true => simp

/-- One segment of the loop. -/
theorem executeFrom_segment (u_err : σ → Text → σ) {segment : List Slot}
    (hsegment : IsSegment segment) (behind : List Slot)
    (hbehind : ∀ t ∈ behind.head?, isOperator t.text = true) (start : Nat) (last : Int)
    (should_run : Bool) (s : σ) :
    executeFrom run u_err start last should_run (segment ++ behind) s =
      let stop := start + segment.length
      let r := if should_run then run start stop s else ⟨last, false, s⟩
      if r.want_exit then r
      else behind.head?.elim ⟨r.rc, false, r.sys⟩ fun op =>
        if behind.tail = [] then ⟨2, false, u_err r.sys (ascii "msh: trailing operator\n")⟩
        else executeFrom run u_err (stop + 1) r.rc (shouldRun op.text r.rc) behind.tail r.sys := by
  have hplain : ∀ t ∈ segment, decide (¬ isOperator t.text) = true := by
    intro t ht
    simp [hsegment.plain t ht]
  have hstop : ∀ t ∈ behind.head?, decide (¬ isOperator t.text) = false := by
    intro t ht
    simp [hbehind t ht]
  obtain ⟨htake, hdrop⟩ := cut_append hplain hstop
  rw [executeFrom, dif_neg (append_ne_nil_of_left_ne_nil hsegment.nonempty _), htake, hdrop,
    if_neg hsegment.nonempty]

/-- The loop goes through the segments as the evaluation does. -/
theorem executeFrom_segments (u_err : σ → Text → σ) {first : List Slot} {rest : Tail}
    (hfirst : IsSegment first) (hrest : ∀ x ∈ rest, isOperator x.1.text = true ∧ IsSegment x.2)
    (start : Nat) (last : Int) (should_run : Bool) (s : σ) :
    executeFrom run u_err start last should_run (tokensOf first rest) s =
      (rest.foldl (evalNext run) (start + first.length,
        if should_run then run start (start + first.length) s else ⟨last, false, s⟩)).2 := by
  induction rest generalizing first start last should_run s with
  | nil =>
    refine (executeFrom_segment u_err hfirst [] nofun start last should_run s).trans ?_
    dsimp only
    generalize (if should_run then run start _ s else ⟨last, false, s⟩) = r
    cases hexit : r.want_exit with
    | true => rfl
    | false => simp [← hexit]
  | cons x rest ih =>
    obtain ⟨⟨hop, hnext⟩, hrest⟩ := forall_mem_cons.mp hrest
    have hne : tokensOf x.2 rest ≠ [] := append_ne_nil_of_left_ne_nil hnext.nonempty _
    refine (executeFrom_segment u_err hfirst (x.1 :: tokensOf x.2 rest) ?_ start last should_run
      s).trans ?_
    · rintro t ⟨⟩
      exact hop
    dsimp only
    generalize (if should_run then run start _ s else ⟨last, false, s⟩) = r
    cases hexit : r.want_exit with
    | true => exact (foldl_evalNext_exit (x :: rest) (_, r) hexit).symm
    | false =>
      rw [foldl_cons, evalNext_going hexit, if_neg Bool.false_ne_true]
      exact (if_neg hne).trans (ih hnext hrest _ _ _ _)

end

/-- **Command lists.** Segments with operators between them are evaluated from the left, with
any `run_segment` and so with the shell's. -/
theorem command_list_evaluated {σ : Type} {first : List Slot} {rest : Tail}
    (hfirst : IsSegment first) (hrest : ∀ x ∈ rest, isOperator x.1.text = true ∧ IsSegment x.2) :
    (∀ (run : (start stop : Nat) → σ → Done σ) (u_err : σ → Text → σ) (s : σ),
      executeFrom run u_err 0 0 true (tokensOf first rest) s = evalList run first rest s) ∧
    ∀ (S : Sys σ) (g_path : Text) (s : σ), execute_tokens S g_path (tokensOf first rest) s =
      evalList (rangeRunner S g_path (tokensOf first rest)) first rest s := by
  have hloop : ∀ (run : (start stop : Nat) → σ → Done σ) (u_err : σ → Text → σ) (s : σ),
      executeFrom run u_err 0 0 true (tokensOf first rest) s = evalList run first rest s := by
    intro run u_err s
    rw [executeFrom_segments u_err hfirst hrest, Nat.zero_add]
    rfl
  refine ⟨hloop, fun S g_path s => ?_⟩
  exact (executeLoop_eq S g_path rfl 0 true s).trans (hloop _ _ _)

/-- In `a && b || c`, where every command fails, `b` does not run and `c` does. -/
theorem and_or_evaluated :
    executeFrom (fun start stop ran => ⟨1, false, ran ++ [(start, stop)]⟩) (fun ran _ => ran) 0 0
      true (tokensOf [⟨[0x61], false⟩] [(⟨[AMP, AMP], false⟩, [⟨[0x62], false⟩]),
        (⟨[BAR, BAR], false⟩, [⟨[0x63], false⟩])]) [] = ⟨1, false, [(0, 1), (4, 5)]⟩ :=
  (command_list_evaluated ⟨by decide, by decide⟩
    (by rintro x (_ | ⟨_, _ | ⟨_, ⟨⟩⟩⟩) <;> exact ⟨by decide, by decide, by decide⟩)).1 _ _ _

end System1.Msh
