import IncrementalC.Input.Scan
import IncrementalC.Proofs.Token.Trivia

/-!
Contract: where chunks of input are joined by a line break.

The reader of typed input and the reader of tokens agree about comments as long as all
characters can be read: where one stands in a line comment, the other one does.

Owns:
- which texts stop inside a line comment, told by their tokens;
- joining chunks, and that the reader of typed input joins them so.

Does not own: what the joined text means.
-/

namespace IncrementalC.Input

/-! ## Scanning -/

section

attribute [local simp] scan

theorem scan_code_cons {head : Char} {rest : List Char} (noQuote : head ≠ '"')
    (noLine : ∀ others, head = '/' → rest = '/' :: others → False)
    (noBlock : ∀ others, head = '/' → rest = '*' :: others → False) :
    (scan .code (head :: rest)).2 = (scan .code rest).2 := by
  rw [scan]
  · exact noLine
  · exact noBlock
  · exact fun quote => noQuote quote

theorem scan_code_cons_fst {head : Char} {rest : List Char} (noQuote : head ≠ '"')
    (noLine : ∀ others, head = '/' → rest = '/' :: others → False)
    (noBlock : ∀ others, head = '/' → rest = '*' :: others → False) :
    (scan .code (head :: rest)).1 = head :: (scan .code rest).1 := by
  rw [scan]
  · exact noLine
  · exact noBlock
  · exact fun quote => noQuote quote

theorem scan_blockComment_cons {head : Char} {rest : List Char}
    (unended : ∀ others, head = '*' → rest = '/' :: others → False) :
    scan .blockComment (head :: rest) = scan .blockComment rest := by
  rw [scan]
  exact unended

theorem scan_lineComment_of_not_mem {characters : List Char} (noBreak : '\n' ∉ characters) :
    (scan .lineComment characters).2 = .lineComment := by
  induction characters with
  | nil => rfl
  | cons head rest inductionHypothesis =>
    rw [List.mem_cons, not_or] at noBreak
    rw [scan, if_neg (Ne.symm noBreak.1)]
    exact inductionHypothesis noBreak.2

theorem scan_lineComment_append {comment rest : List Char} (oneLine : '\n' ∉ comment) :
    scan .lineComment (comment ++ '\n' :: rest) = scan .code rest := by
  induction comment with
  | nil => simp
  | cons head comment inductionHypothesis =>
    rw [List.mem_cons, not_or] at oneLine
    rw [List.cons_append, scan, if_neg (Ne.symm oneLine.1)]
    exact inductionHypothesis oneLine.2

theorem scan_blockComment_append {comment rest : List Char} (unended : ¬['*', '/'] <:+: comment) :
    scan .blockComment (comment ++ '*' :: '/' :: rest) = scan .code rest := by
  induction comment with
  | nil => simp
  | cons head comment inductionHypothesis =>
    rw [List.infix_cons_iff, not_or] at unended
    rw [List.cons_append, scan_blockComment_cons ?_]
    · exact inductionHypothesis unended.2
    · rintro others rfl next
      cases comment with
      | nil => simp at next
      | cons second comment =>
        obtain rfl := (List.cons.inj next).1
        exact unended.1 (by simp)

theorem scan_blockComment_of_unended {comment : List Char} (unended : ¬['*', '/'] <:+: comment) :
    (scan .blockComment comment).2 = .blockComment := by
  induction comment with
  | nil => rfl
  | cons head comment inductionHypothesis =>
    rw [List.infix_cons_iff, not_or] at unended
    rw [scan_blockComment_cons ?_]
    · exact inductionHypothesis unended.2
    · rintro others rfl rfl
      exact unended.1 (by simp)

end

/-! ## Trivia and lexemes -/

/-- Where the reader of typed input stands when the reader of tokens stands in `context`. -/
def scanningOf : TriviaContext → ScanContext
  | .code => .code
  | .lineComment => .lineComment
  | .blockComment => .blockComment

theorem isBlank_ne {character : Char} (blank : Text.isBlank character = true) :
    character ≠ '/' ∧ character ≠ '"' :=
  ⟨by rintro rfl; exact absurd blank (by decide), by rintro rfl; exact absurd blank (by decide)⟩

theorem scan_marks (context : TriviaContext) (characters : List Char) :
    scan .code (context.marks ++ characters) = scan (scanningOf context) characters := by
  cases context with
  | code => rfl
  | lineComment | blockComment =>
    simp only [TriviaContext.marks, List.cons_append, List.nil_append, scan, scanningOf]

/-- The reader of typed input comes through trivia into code. Nothing can stand behind a line
comment without its line break, and then the reader stays in it. -/
theorem scan_append_trivia {stopsInLine : Bool} {trivia rest : List Char}
    (taken : Trivia stopsInLine trivia) (ended : stopsInLine = true → rest = []) :
    (scan .code (trivia ++ rest)).2 =
      if stopsInLine then .lineComment else (scan .code rest).2 := by
  induction taken with
  | nil => rfl
  | blank white _ inductionHypothesis =>
    obtain ⟨noSlash, noQuote⟩ := isBlank_ne white
    rw [List.cons_append,
      scan_code_cons noQuote (fun _ slash _ => noSlash slash) fun _ slash _ => noSlash slash]
    exact inductionHypothesis ended
  | line oneLine _ inductionHypothesis =>
    simp only [List.cons_append, List.append_assoc, scan, scan_lineComment_append oneLine]
    exact inductionHypothesis ended
  | lastLine oneLine =>
    rw [ended rfl, List.append_nil, scan]
    exact scan_lineComment_of_not_mem oneLine
  | block unended _ inductionHypothesis =>
    simp only [List.cons_append, List.append_assoc, scan, scan_blockComment_append unended]
    exact inductionHypothesis ended

/-- Behind trivia both readers stand in code, unless the text ends in a line comment. -/
theorem scan_of_trivia {context : TriviaContext} {characters : List Char} {count : Nat}
    (trivia : triviaLength? context characters = some count) :
    (scan (scanningOf context) characters).2 = (scan .code (characters.drop count)).2 ∨
      characters.drop count = [] ∧
        (scan (scanningOf context) characters).2 = .lineComment := by
  obtain ⟨stopsInLine, taken, ended⟩ := trivia_of_length trivia
  have through := scan_append_trivia taken ended
  rw [List.append_assoc, List.take_append_drop, scan_marks] at through
  cases stopsInLine with
  | false => exact .inl through
  | true => exact .inr ⟨ended rfl, through⟩

/-- A block comment without end leaves both readers in it. -/
theorem scan_of_unended {context : TriviaContext} {characters : List Char}
    (trivia : triviaLength? context characters = none) :
    (scan (scanningOf context) characters).2 = .blockComment := by
  obtain ⟨gap, comment, taken, unended, split⟩ := trivia_of_unended trivia
  rw [← scan_marks, split, scan_append_trivia taken nofun]
  exact scan_blockComment_of_unended unended

/-- The reader of typed input takes no notice of the characters of a lexeme. -/
def Plain (character : Char) : Prop := character ≠ '/' ∧ character ≠ '"'

theorem plain_of_isWordPart {character : Char} (part : isWordPart character = true) :
    Plain character :=
  ⟨by rintro rfl; exact absurd part (by decide), by rintro rfl; exact absurd part (by decide)⟩

theorem plain_of_isDigit {character : Char} (digit : character.isDigit = true) :
    Plain character :=
  ⟨by rintro rfl; exact absurd digit (by decide), by rintro rfl; exact absurd digit (by decide)⟩

theorem scan_drop {characters : List Char} {count : Nat}
    (plain : ∀ character ∈ characters.take count, Plain character) :
    (scan .code characters).2 = (scan .code (characters.drop count)).2 := by
  induction characters generalizing count with
  | nil => rw [List.drop_nil]
  | cons head tail inductionHypothesis =>
    cases count with
    | zero => rfl
    | succ count =>
      rw [List.take_succ_cons] at plain
      obtain ⟨noSlash, noQuote⟩ := plain head List.mem_cons_self
      rw [scan_code_cons noQuote (fun _ slash _ => noSlash slash) fun _ slash _ => noSlash slash]
      exact inductionHypothesis fun character member =>
        plain character (List.mem_cons_of_mem head member)

theorem plain_of_mem_takeWhile {test : Char → Bool} {rest : List Char} {character : Char}
    (plain : ∀ {character}, test character = true → Plain character)
    (member : character ∈ rest.take (rest.takeWhile test).length) : Plain character := by
  rw [← List.prefix_iff_eq_take.mp (List.takeWhile_prefix test)] at member
  exact plain (List.all_eq_true.mp List.all_takeWhile character member)

theorem plain_of_mem_take_one {rest : List Char} {next character : Char}
    (found : rest.head? = some next) (plain : Plain next) (member : character ∈ rest.take 1) :
    Plain character := by
  cases rest with
  | nil => cases found
  | cons head tail =>
    obtain rfl := Option.some.inj found
    obtain rfl := List.mem_singleton.mp member
    exact plain

/-- Behind its first character a lexeme consists of such characters. -/
theorem readLexeme_plain (first : Char) (rest : List Char) :
    ∀ character ∈ rest.take (readLexeme first rest).2, Plain character := by
  intro character member
  rcases readLexeme_count first rest with none | ⟨one, equal | and | or⟩ | digits | word
  · rw [none] at member
    cases member
  · exact plain_of_mem_take_one equal (by unfold Plain; decide) (one ▸ member)
  · exact plain_of_mem_take_one and (by unfold Plain; decide) (one ▸ member)
  · exact plain_of_mem_take_one or (by unfold Plain; decide) (one ▸ member)
  · exact plain_of_mem_takeWhile plain_of_isDigit (digits ▸ member)
  · exact plain_of_mem_takeWhile plain_of_isWordPart (word ▸ member)

/-- A lexeme leaves the reader of typed input in code. -/
theorem scan_of_lexeme {first : Char} {rest : List Char} {lexeme : Lexeme}
    (trivia : triviaLength? .code (first :: rest) = some 0)
    (read : (readLexeme first rest).1 = .ok lexeme) :
    (scan .code (first :: rest)).2 =
      (scan .code ((first :: rest).drop ((readLexeme first rest).2 + 1))).2 := by
  have noQuote : first ≠ '"' := by
    rintro rfl
    cases read
  rw [scan_code_cons noQuote ?_ ?_, List.drop_succ_cons]
  · exact scan_drop (readLexeme_plain first rest)
  · rintro others rfl rfl
    simp [triviaLength?] at trivia
  · rintro others rfl rfl
    simp [triviaLength?] at trivia

/-! ## Texts -/

/-- Where the reader of typed input can stand behind a text of which the reader of tokens makes
`outcome`. Behind a wrong character nothing is known. -/
def LeavesAt : Except SourceError (List Token) → ScanContext → Prop
  | .ok _, context => context = .code ∨ context = .lineComment
  | .error .incomplete, context => context = .blockComment
  | .error (.invalid _), _ => True

theorem leavesAt_map {outcome : Except SourceError (List Token)} {context : ScanContext}
    (leaves : LeavesAt outcome context) (change : List Token → List Token) :
    LeavesAt (outcome.map change) context := by
  rcases outcome with (_ | diagnostic) | tokens <;> exact leaves

theorem scan_leavesAt (cursor : Cursor) :
    LeavesAt (tokensFrom cursor) (scan .code cursor.rest).2 := by
  induction cursor using tokensFrom.induct with
  | case1 cursor unended =>
    rw [tokensFrom_of_unended unended]
    exact scan_of_unended unended
  | case2 cursor skipped trivia start blank =>
    rw [tokensFrom_of_blank trivia blank]
    rcases scan_of_trivia trivia with code | ⟨-, comment⟩
    · have ended : cursor.rest.drop skipped = [] := blank
      rw [ended] at code
      exact .inl code
    · exact .inr comment
  | case3 cursor skipped trivia start first rest found outcome problem failed =>
    simp only [outcome] at failed
    rw [tokensFrom_of_more trivia found]
    simp only [failed]
    trivial
  | case4 cursor skipped trivia start first rest found outcome next lexeme readAs shorter
      inductionHypothesis =>
    simp only [outcome] at readAs
    have dropped : cursor.rest.drop skipped = first :: rest := found
    have bare : triviaLength? .code (first :: rest) = some 0 := dropped ▸ triviaLength?_drop trivia
    have behind : next.rest = (first :: rest).drop ((readLexeme first rest).2 + 1) := by
      simp only [next, Cursor.advance, start, outcome, dropped]
    rw [tokensFrom_of_more trivia found]
    simp only [readAs]
    rcases scan_of_trivia trivia with code | ⟨ended, -⟩
    · rw [dropped, scan_of_lexeme bare readAs, ← behind] at code
      rw [show (scan .code cursor.rest).2 = _ from code]
      exact leavesAt_map inductionHypothesis _
    · exact absurd (dropped.symm.trans ended) (by simp)

/-! ## Line comments -/

/-- A comment that opens in code, or in another one, reaches to the end of its line. -/
theorem scan_append_comment {context : ScanContext} {before comment : List Char}
    (outside : (scan context before).2 = .code ∨ (scan context before).2 = .lineComment)
    (noBreak : '\n' ∉ comment) :
    (scan context (before ++ '/' :: '/' :: comment)).2 = .lineComment := by
  have noBreakBehind : '\n' ∉ '/' :: comment := by simp [noBreak]
  fun_induction scan context before with
  | case1 context =>
    rcases outside with rfl | rfl
    · exact scan_lineComment_of_not_mem noBreak
    · exact scan_lineComment_of_not_mem (by simp [noBreak])
  | case2 rest inductionHypothesis | case3 rest inductionHypothesis
  | case4 rest inductionHypothesis | case6 rest inductionHypothesis
  | case7 rest inductionHypothesis | case12 rest inductionHypothesis =>
    exact inductionHypothesis outside
  | case5 head rest notLine notBlock noQuote remaining inductionHypothesis =>
    by_cases slash : head = '/' ∧ rest = []
    · obtain ⟨rfl, rfl⟩ := slash
      exact scan_lineComment_of_not_mem noBreakBehind
    · rw [List.cons_append, scan_code_cons noQuote]
      · exact inductionHypothesis outside
      · rintro others rfl next
        cases rest with
        | nil => exact slash ⟨rfl, rfl⟩
        | cons second rest => exact notLine rest rfl (by rw [(List.cons.inj next).1])
      · rintro others rfl next
        cases rest with
        | nil => exact slash ⟨rfl, rfl⟩
        | cons second rest => exact notBlock rest rfl (by rw [(List.cons.inj next).1])
  | case8 head rest noBackslash noQuote inductionHypothesis =>
    rw [List.cons_append, scan]
    · exact inductionHypothesis outside
    · exact noBackslash
    · exact noQuote
  | case9 head rest inductionHypothesis =>
    rw [List.cons_append, scan]
    exact inductionHypothesis outside
  | case10 rest inductionHypothesis =>
    rw [List.cons_append, scan, if_pos rfl]
    exact inductionHypothesis outside
  | case11 head rest noBreakHere inductionHypothesis =>
    rw [List.cons_append, scan, if_neg noBreakHere]
    exact inductionHypothesis outside
  | case13 head rest unended inductionHypothesis =>
    rw [List.cons_append, scan_blockComment_cons]
    · exact inductionHypothesis outside
    · rintro others rfl next
      cases rest with
      | nil => rcases outside with outside | outside <;> cases outside
      | cons second rest => exact unended rest rfl (by rw [(List.cons.inj next).1])

/-- The last line of the text holds the marks of a line comment, which stand in code when the
text is read from `context`. -/
def OpensComment (context : ScanContext) (characters : List Char) : Prop :=
  ∃ before comment, characters = before ++ '/' :: '/' :: comment ∧ '\n' ∉ comment ∧
    (scan context before).2 = .code

/-- Characters in front that lead from `context` to `next` are in front of the same comment. -/
theorem OpensComment.behind {context next : ScanContext} {rest : List Char}
    (opens : OpensComment next rest) (front : List Char)
    (leads : ∀ before others, rest = before ++ others →
      (scan context (front ++ before)).2 = (scan next before).2) :
    OpensComment context (front ++ rest) := by
  obtain ⟨before, comment, rfl, noBreak, outside⟩ := opens
  refine ⟨front ++ before, comment, by rw [List.append_assoc], noBreak, ?_⟩
  rw [leads before _ rfl]
  exact outside

/-- A text that stops inside a line comment stops behind one that opened in code, unless it is
all of one line. -/
theorem opensComment_of_scan {context : ScanContext} {characters : List Char}
    (inside : (scan context characters).2 = .lineComment) :
    OpensComment context characters ∨ context = .lineComment ∧ '\n' ∉ characters := by
  fun_induction scan context characters with
  | case1 context => exact .inr ⟨inside, List.not_mem_nil⟩
  | case2 rest inductionHypothesis =>
    rcases inductionHypothesis inside with opens | ⟨-, noBreak⟩
    · exact .inl (opens.behind ['/', '/'] fun _ _ _ => rfl)
    · exact .inl ⟨[], rest, rfl, noBreak, rfl⟩
  | case3 rest inductionHypothesis =>
    have opens := (inductionHypothesis inside).resolve_right (by simp)
    exact .inl (opens.behind ['/', '*'] fun _ _ _ => rfl)
  | case4 rest inductionHypothesis | case7 rest inductionHypothesis =>
    have opens := (inductionHypothesis inside).resolve_right (by simp)
    exact .inl (opens.behind ['"'] fun _ _ _ => rfl)
  | case5 head rest notLine notBlock noQuote remaining inductionHypothesis =>
    have opens := (inductionHypothesis inside).resolve_right (by simp)
    refine .inl (opens.behind [head] ?_)
    rintro before others rfl
    refine scan_code_cons noQuote ?_ ?_
    · rintro _ rfl rfl
      exact notLine _ rfl rfl
    · rintro _ rfl rfl
      exact notBlock _ rfl rfl
  | case6 rest inductionHypothesis =>
    have opens := (inductionHypothesis inside).resolve_right (by simp)
    exact .inl (opens.behind ['\\'] fun _ _ _ => rfl)
  | case8 head rest noBackslash noQuote inductionHypothesis =>
    have opens := (inductionHypothesis inside).resolve_right (by simp)
    refine .inl (opens.behind [head] fun before _ _ => ?_)
    rw [List.cons_append, List.nil_append, scan]
    · exact noBackslash
    · exact noQuote
  | case9 head rest inductionHypothesis =>
    have opens := (inductionHypothesis inside).resolve_right (by simp)
    exact .inl (opens.behind [head] fun before _ _ => by rw [List.cons_append, scan]; rfl)
  | case10 rest inductionHypothesis =>
    have opens := (inductionHypothesis inside).resolve_right (by simp)
    exact .inl (opens.behind ['\n'] fun before _ _ => by
      rw [List.cons_append, scan, if_pos rfl]; rfl)
  | case11 head rest noBreakHere inductionHypothesis =>
    rcases inductionHypothesis inside with opens | ⟨-, noBreak⟩
    · exact .inl (opens.behind [head] fun before _ _ => by
        rw [List.cons_append, scan, if_neg noBreakHere]; rfl)
    · exact .inr ⟨rfl, by simp [noBreak, Ne.symm noBreakHere]⟩
  | case12 rest inductionHypothesis =>
    have opens := (inductionHypothesis inside).resolve_right (by simp)
    exact .inl (opens.behind ['*', '/'] fun _ _ _ => rfl)
  | case13 head rest unended inductionHypothesis =>
    have opens := (inductionHypothesis inside).resolve_right (by simp)
    refine .inl (opens.behind [head] ?_)
    rintro before others rfl
    refine congrArg Prod.snd (scan_blockComment_cons ?_)
    rintro _ rfl rfl
    exact unended _ rfl rfl

/-! ## Chunks -/

/-- The text stops inside a line comment: what stands before the marks of the comment has tokens,
so that the marks stand in no block comment. -/
def EndsInLineComment (text : String) : Prop :=
  ∃ before comment : List Char, text.toList = before ++ '/' :: '/' :: comment ∧ '\n' ∉ comment ∧
    ∃ tokens, tokensFrom (.atStart before) = .ok tokens

/-- In a text without wrong characters both readers find the same line comments. -/
theorem endsInLineComment_iff {text : String}
    (readable : ∀ diagnostic, tokenize text ≠ .error (.invalid diagnostic)) :
    endsInLineComment text.toList = true ↔ EndsInLineComment text := by
  rw [endsInLineComment, decide_eq_true_iff]
  constructor
  · intro inside
    obtain ⟨before, comment, split, noBreak, outside⟩ :=
      (opensComment_of_scan inside).resolve_right (by simp)
    refine ⟨before, comment, split, noBreak, ?_⟩
    have leaves := scan_leavesAt (.atStart before)
    rcases read : tokensFrom (.atStart before) with (_ | diagnostic) | tokens
    · rw [read] at leaves
      exact absurd (outside.symm.trans leaves) (by simp)
    · have wrong := tokensFrom_continuedBy_of_invalid separates_slash read ('/' :: comment)
      exact absurd (by rw [tokenize, split]; exact wrong) (readable diagnostic)
    · exact ⟨tokens, rfl⟩
  · rintro ⟨before, comment, split, noBreak, tokens, read⟩
    have leaves := scan_leavesAt (.atStart before)
    rw [read] at leaves
    rw [split]
    exact scan_append_comment leaves noBreak

/-- The text that chunks make behind `text`: each is added to the text so far as it is, or behind
a line break if that text stops inside a line comment. -/
inductive Joins : (text : String) → List String → String → Prop where
  | done (text : String) : Joins text [] text
  | next {text chunk whole : String} {chunks : List String} (outside : ¬EndsInLineComment text)
      (rest : Joins (text ++ chunk) chunks whole) : Joins text (chunk :: chunks) whole
  | line {text chunk whole : String} {chunks : List String} (inside : EndsInLineComment text)
      (rest : Joins (text ++ "\n" ++ chunk) chunks whole) : Joins text (chunk :: chunks) whole

/-- Chunks make only one text. -/
theorem Joins.unique {text whole other : String} {chunks : List String}
    (joins : Joins text chunks whole) (others : Joins text chunks other) : whole = other := by
  induction joins with
  | done text =>
    cases others
    rfl
  | next outside rest inductionHypothesis =>
    cases others with
    | next _ rest => exact inductionHypothesis rest
    | line inside _ => exact absurd inside outside
  | line inside rest inductionHypothesis =>
    cases others with
    | next outside _ => exact absurd inside outside
    | line _ rest => exact inductionHypothesis rest

/-- A chunk is joined to what the chunks before it make. -/
theorem Joins.continued {text between : String} {chunks : List String}
    (joins : Joins text chunks between)
    (readable : ∀ diagnostic, tokenize between ≠ .error (.invalid diagnostic)) (chunk : String) :
    Joins text (chunks ++ [chunk]) (joinContinuation between chunk) := by
  induction joins with
  | done text =>
    by_cases inside : EndsInLineComment text
    · have joined : joinContinuation text chunk = text ++ "\n" ++ chunk := by
        rw [joinContinuation, joinCharacters, if_pos ((endsInLineComment_iff readable).mpr inside)]
        exact String.toList_injective (by simp)
      rw [joined]
      exact .line inside (.done _)
    · have joined : joinContinuation text chunk = text ++ chunk := by
        rw [joinContinuation, joinCharacters,
          if_neg fun ends => inside ((endsInLineComment_iff readable).mp ends)]
        exact String.toList_injective (by simp)
      rw [joined]
      exact .next inside (.done _)
  | next outside rest inductionHypothesis => exact .next outside (inductionHypothesis readable)
  | line inside rest inductionHypothesis => exact .line inside (inductionHypothesis readable)

end IncrementalC.Input
