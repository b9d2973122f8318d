import IncrementalC.Input.Balance
import IncrementalC.Input.Wrapping
import IncrementalC.Proofs.Input.Brackets
import IncrementalC.Proofs.Syntax.Program
import IncrementalC.Proofs.Token.Trivia

/-!
Contract: which input is placed in a function.

Whether it is depends on its first token alone, although the decision reads characters: it drops
the same trivia from the front as the reader of tokens, and ends the first word where that does.
So no program is placed in a function, nor a text without tokens, and input that is held back
because its brackets are open is still placed in one when more text has come.

Owns: the trivia in front of input, its first token, and what more text changes about the
decision.

Does not own: the text of the function.
-/

namespace IncrementalC.Input

open Syntax.Parser (nextLexeme)

/-! ## The trivia in front -/

/-- What the reader of tokens leaves behind trivia; nothing if they do not end. -/
def behindTrivia (context : TriviaContext) (characters : List Char) : List Char :=
  match triviaLength? context characters with
  | none => []
  | some count => characters.drop count

theorem behindTrivia_of_length {context : TriviaContext} {characters : List Char} {count : Nat}
    (trivia : triviaLength? context characters = some count) :
    behindTrivia context characters = characters.drop count := by
  rw [behindTrivia, trivia]

/-- Nothing changes if the trivia are read from further on. -/
theorem behindTrivia_append {context next : TriviaContext} {rest : List Char}
    (front : List Char) (counted : triviaLength? context (front ++ rest) =
      (triviaLength? next rest).map (· + front.length)) :
    behindTrivia context (front ++ rest) = behindTrivia next rest := by
  unfold behindTrivia
  rw [counted]
  cases triviaLength? next rest with
  | none => rfl
  | some count =>
    change (front ++ rest).drop (count + front.length) = rest.drop count
    rw [Nat.add_comm, List.drop_append]
    simp

/-- Behind the marks that start a line comment stands what stands behind the comment. -/
theorem behindTrivia_startLine (rest : List Char) :
    behindTrivia .code ('/' :: '/' :: rest) = behindTrivia .lineComment rest :=
  behindTrivia_append ['/', '/'] (by simp [triviaLength?])

/-- Behind the marks that start a block comment stands what stands behind the comment. -/
theorem behindTrivia_startBlock (rest : List Char) :
    behindTrivia .code ('/' :: '*' :: rest) = behindTrivia .blockComment rest :=
  behindTrivia_append ['/', '*'] (by simp [triviaLength?])

theorem behindTrivia_endBlock (rest : List Char) :
    behindTrivia .blockComment ('*' :: '/' :: rest) = behindTrivia .code rest :=
  behindTrivia_append ['*', '/'] (by simp [triviaLength?])

theorem behindTrivia_blockComment_cons {head : Char} {rest : List Char}
    (stays : ∀ others, head = '*' → rest = '/' :: others → False) :
    behindTrivia .blockComment (head :: rest) = behindTrivia .blockComment rest :=
  behindTrivia_append [head] (triviaLength?_blockComment_cons stays)

theorem behindTrivia_trimStart (characters : List Char) :
    behindTrivia .code characters = behindTrivia .code (Text.trimStart characters) := by
  have blanks : Trivia false (characters.takeWhile Text.isBlank) :=
    Trivia.of_blanks fun _ member => List.all_eq_true.mp List.all_takeWhile _ member
  calc behindTrivia .code characters
    _ = behindTrivia .code (characters.takeWhile Text.isBlank ++ Text.trimStart characters) := by
        rw [Text.trimStart, List.takeWhile_append_dropWhile]
    _ = behindTrivia .code (Text.trimStart characters) :=
        behindTrivia_append _ (blanks.length_append (by simp))

/-- A line comment reaches up to the line break. -/
theorem behindTrivia_lineComment (rest : List Char) :
    behindTrivia .lineComment rest = behindTrivia .code (rest.dropWhile (· != '\n')) := by
  have oneLine : '\n' ∉ rest.takeWhile (· != '\n') := fun member =>
    absurd (List.all_eq_true.mp List.all_takeWhile _ member) (by decide)
  calc behindTrivia .lineComment rest
    _ = behindTrivia .lineComment
          (rest.takeWhile (· != '\n') ++ rest.dropWhile (· != '\n')) := by
        rw [List.takeWhile_append_dropWhile]
    _ = behindTrivia .code (rest.dropWhile (· != '\n')) := behindTrivia_append _ ?_
  cases behind : rest.dropWhile (· != '\n') with
  | nil =>
    rw [List.append_nil, triviaLength?_lineComment_of_not_mem oneLine]
    simp [triviaLength?]
  | cons head others =>
    obtain rfl : head = '\n' := by
      have stops := List.head?_dropWhile_not (· != '\n') rest
      simpa [behind] using stops
    rw [triviaLength?_lineComment_append oneLine, triviaLength?_cons (by simp) (by simp),
      if_pos (by decide), Option.map_map]
    congr 1
    funext count
    simp only [Function.comp_apply]
    omega

/-- A block comment reaches up to the first marks that end one. -/
theorem behindTrivia_blockComment (rest : List Char) :
    behindTrivia .blockComment rest = behindTrivia .code (behindBlockComment rest) := by
  fun_induction behindBlockComment rest with
  | case1 => rfl
  | case2 rest => exact behindTrivia_endBlock rest
  | case3 head rest stays inductionHypothesis =>
    rw [behindTrivia_blockComment_cons stays, inductionHypothesis]

/-- Input is freed of its trivia as the reader of tokens skips them. -/
theorem dropTrivia_eq (characters : List Char) :
    dropTrivia characters = behindTrivia .code characters := by
  fun_induction dropTrivia characters with
  | case1 characters rest trimmed shorter inductionHypothesis =>
    rw [inductionHypothesis, behindTrivia_trimStart characters, trimmed,
      behindTrivia_startLine, behindTrivia_lineComment]
  | case2 characters rest trimmed shorter inductionHypothesis =>
    rw [inductionHypothesis, behindTrivia_trimStart characters, trimmed,
      behindTrivia_startBlock, behindTrivia_blockComment]
  | case3 characters notLine notBlock =>
    have solid : triviaLength? .code (Text.trimStart characters) = some 0 := by
      cases trimmed : Text.trimStart characters with
      | nil => rfl
      | cons head rest =>
        have stops := List.head?_dropWhile_not Text.isBlank characters
        rw [← Text.trimStart, trimmed] at stops
        rw [triviaLength?_cons (by rintro _ rfl rfl; exact notLine _ trimmed)
          (by rintro _ rfl rfl; exact notBlock _ trimmed), if_neg (by simpa using stops)]
    rw [behindTrivia_trimStart characters, behindTrivia_of_length solid, List.drop_zero]

/-! ## The first token -/

/-- The lexemes that a declaration can start with. -/
def declarationStarts : List Lexeme := declarationWords.map .keyword

theorem isOneOf_iff {keywords : List Keyword} {word : List Char} :
    isOneOf keywords word = true ↔ ∃ keyword ∈ keywords, Lexeme.ofWord word = .keyword keyword := by
  have reserved : ∀ keyword : Keyword,
      keyword.spelling.toList = word ↔ Lexeme.ofWord word = .keyword keyword := by
    intro keyword
    unfold Lexeme.ofWord
    constructor
    · rintro rfl
      rw [String.ofList_toList, Keyword.ofSpelling?_spelling]
    · intro same
      split at same
      · rename_i found spelled
        obtain rfl := Lexeme.keyword.inj same
        have matching := List.find?_some spelled
        rw [eq_of_beq matching, String.toList_ofList]
      · cases same
  simp only [isOneOf, List.any_eq_true, beq_iff_eq, reserved]

/-- No reserved word starts with a digit. -/
theorem isOneOf_of_digit {keywords : List Keyword} {first : Char} (digit : first.isDigit = true)
    (rest : List Char) : isOneOf keywords (first :: rest) = false := by
  have letters : ∀ keyword : Keyword,
      keyword.spelling.toList.head?.all (fun character => !character.isDigit) = true := by
    intro keyword
    cases keyword <;> decide
  rw [isOneOf, List.any_eq_false]
  intro keyword _ same
  have letter := letters keyword
  rw [eq_of_beq same, List.head?_cons, Option.all_some, digit] at letter
  cases letter

/-- Input that has tokens is placed in a function exactly if no declaration can start with the
first of them. -/
theorem needsWrapping_iff {cursor : Cursor} {tokens : List Token}
    (read : tokensFrom cursor = .ok tokens) :
    needsWrapping cursor.rest = true ↔
      nextLexeme tokens ≠ .endOfInput ∧ nextLexeme tokens ∉ declarationStarts := by
  cases trivia : triviaLength? .code cursor.rest with
  | none =>
    cases (tokensFrom_of_unended trivia).symm.trans read
  | some skipped =>
    have behind : dropTrivia cursor.rest = (cursor.advance skipped).rest := by
      rw [dropTrivia_eq, behindTrivia_of_length trivia]
      rfl
    cases more : (cursor.advance skipped).rest with
    | nil =>
      obtain rfl := Except.ok.inj ((tokensFrom_of_blank trivia more).symm.trans read)
      simp [needsWrapping, firstWord, behind, more, nextLexeme]
    | cons first rest =>
      have reads := (tokensFrom_of_more trivia more).symm.trans read
      cases outcome : (readLexeme first rest).1 with
      | error problem =>
        rw [outcome] at reads
        cases reads
      | ok lexeme =>
        rw [outcome] at reads
        obtain ⟨others, -, rfl⟩ := map_eq_ok_iff.mp reads
        have keyword : lexeme ∈ declarationStarts ↔
            ∃ keyword ∈ declarationWords, lexeme = .keyword keyword := by
          simp only [declarationStarts, List.mem_map, eq_comm]
        have unended := readLexeme_ne_endOfInput outcome
        simp only [Syntax.Parser.nextLexeme_cons, needsWrapping, firstWord, behind, more, keyword,
          unended, ne_eq, not_false_eq_true, true_and]
        rcases readLexeme_cases outcome with
          ⟨start, rfl⟩ | ⟨digit, value, rfl⟩ | ⟨other, symbol, rfl⟩
        · rw [List.takeWhile_cons_of_pos (isWordPart_of_isWordStart start), ← isOneOf_iff]
          simp
        · have part : isWordPart first = true := by
            simp [isWordPart, Char.isAlphanum, digit]
          rw [List.takeWhile_cons_of_pos part, isOneOf_of_digit digit]
          simp
        · rw [List.takeWhile_cons_of_neg (by simp [other])]
          simp

/-- A program starts with a declaration, if with anything. -/
theorem declarationStarts_of_program {tokens : List Token} {program : List Syntax.Item}
    (accepted : Syntax.programOfTokens tokens = .ok program) :
    nextLexeme tokens = .endOfInput ∨ nextLexeme tokens ∈ declarationStarts := by
  have types : ∀ type : Syntax.TypeName, Lexeme.keyword type.keyword ∈ declarationStarts := by
    intro type
    cases type <;> decide
  have spelled := Syntax.programOfTokens_eq_ok_iff.mp accepted
  obtain ⟨rest, split, ended⟩ := Syntax.beforeEnd_split tokens
  rw [split]
  generalize Syntax.beforeEnd tokens = taken at spelled
  cases spelled with
  | nil => exact .inl ended
  | cons first others =>
    right
    cases first with
    | «variable» => exact types _
    | prototype signature =>
      obtain ⟨-⟩ := signature
      exact types _
    | external => exact List.mem_map_of_mem (by decide : Keyword.externWord ∈ declarationWords)
    | definition signature =>
      obtain ⟨-⟩ := signature
      exact types _

/-- No program is placed in a function. -/
theorem needsWrapping_of_program {text : String} {program : List Syntax.Item}
    (accepted : Syntax.parseProgram text = .ok program) : needsWrapping text.toList = false := by
  cases read : tokenize text with
  | error problem =>
    simp only [Syntax.parseProgram, read] at accepted
    cases accepted
  | ok tokens =>
    simp only [Syntax.parseProgram, read] at accepted
    rw [← Bool.not_eq_true]
    intro needs
    obtain ⟨more, other⟩ := (needsWrapping_iff read).mp needs
    exact (declarationStarts_of_program accepted).elim more other

/-- Input that holds only trivia is left as it is. -/
theorem needsWrapping_of_trivia {stopsInLine : Bool} {characters : List Char}
    (trivia : Trivia stopsInLine characters) : needsWrapping characters = false := by
  have taken : triviaLength? .code (characters ++ []) = _ := trivia.length_append fun _ => rfl
  rw [List.append_nil] at taken
  have nothing : dropTrivia characters = [] := by
    rw [dropTrivia_eq, behindTrivia, taken]
    simp [triviaLength?]
  simp [needsWrapping, firstWord, nothing]

/-- Whether input is placed in a function is decided by its first token. No program is placed in
one, nor a text of white space and comments. -/
theorem the_first_token_decides (text : String) :
    (∀ tokens, tokenize text = .ok tokens →
      (needsWrapping text.toList = true ↔ nextLexeme tokens ∉
        ([.endOfInput, .keyword .intType, .keyword .voidType, .keyword .autoType,
          .keyword .externWord] : List Lexeme))) ∧
    (∀ program, Syntax.parseProgram text = .ok program → needsWrapping text.toList = false) ∧
    (∀ stopsInLine, Trivia stopsInLine text.toList → needsWrapping text.toList = false) := by
  refine ⟨fun tokens read => ?_, fun program accepted => needsWrapping_of_program accepted,
    fun stopsInLine trivia => needsWrapping_of_trivia trivia⟩
  rw [tokenize] at read
  rw [List.mem_cons, not_or]
  exact needsWrapping_iff read

/-- An expression behind a comment that holds a word, a program behind a comment, and a text of
white space and a comment without its line break. -/
theorem comments_in_front_decide_nothing :
    (∃ tokens, tokenize "/*int/**/ integer" = .ok tokens ∧
      needsWrapping "/*int/**/ integer".toList = true) ∧
    (∃ program, Syntax.parseProgram "// x\nint x;" = .ok program ∧
      needsWrapping "// x\nint x;".toList = false) ∧
    Trivia true "\t// x".toList ∧ needsWrapping "\t// x".toList = false := by
  refine ⟨?_, ?_, ?_⟩
  · have lexemes : (tokenize "/*int/**/ integer").toOption.map (List.map Token.lexeme) =
        some [.identifier "integer", .endOfInput] := by decide +kernel
    cases read : tokenize "/*int/**/ integer" with
    | error problem =>
      rw [read] at lexemes
      cases lexemes
    | ok tokens =>
      rw [read] at lexemes
      refine ⟨tokens, rfl, ((the_first_token_decides _).1 tokens read).mpr ?_⟩
      have first : nextLexeme tokens = .identifier "integer" := by
        obtain ⟨token, rest, rfl, same, -⟩ := List.map_eq_cons_iff.mp (Option.some.inj lexemes)
        exact same
      rw [first]
      decide
  · have accepted : (Syntax.parseProgram "// x\nint x;").isOk = true := by decide +kernel
    cases read : Syntax.parseProgram "// x\nint x;" with
    | error problem =>
      rw [read] at accepted
      cases accepted
    | ok program => exact ⟨program, rfl, (the_first_token_decides _).2.1 program read⟩
  · have trivia : Trivia true "\t// x".toList :=
      .blank (by decide) (.lastLine (by decide))
    exact ⟨trivia, (the_first_token_decides _).2.2 true trivia⟩

/-! ## More text -/

/-- Input is complete if it is complete without the trivia in front. -/
theorem isComplete_of_drop {characters : List Char} {count : Nat}
    (trivia : triviaLength? .code characters = some count)
    (complete : isComplete (characters.drop count) = true) : isComplete characters = true := by
  have same := brackets_of_trivia trivia
  have left := scan_of_trivia trivia
  simp only [scanningOf] at same left
  have brackets : OpenBrackets.none.readAll? (scan .code characters).1 =
      OpenBrackets.none.readAll? (scan .code (characters.drop count)).1 := by
    rw [← readAll?_filter, same, readAll?_filter]
  simp only [isComplete, brackets] at complete ⊢
  split at complete
  · rfl
  · rw [Bool.and_eq_true] at complete ⊢
    refine ⟨complete.1, ?_⟩
    rcases left with same | ⟨-, comment⟩
    · rw [same]
      exact complete.2
    · rw [comment]
      rfl

/-- A word is complete. -/
theorem isComplete_of_word {word : List Char}
    (parts : ∀ character ∈ word, isWordPart character = true) : isComplete word = true := by
  have plain : ∀ character ∈ word.take word.length, Plain character := fun character member =>
    plain_of_isWordPart (parts character (List.mem_of_mem_take member))
  have inCode := scan_take_drop plain
  have left := scan_drop plain
  rw [List.drop_length] at inCode left
  rw [List.take_length, show (scan .code []).1 = [] from rfl, List.append_nil] at inCode
  have closed : OpenBrackets.none.readAll? word = some .none := by
    rw [← readAll?_filter, List.filter_eq_nil_iff.mpr fun character member => by
      simp [isBracket_of_isWordPart (parts character member)]]
    rfl
  simp [isComplete, inCode, left, closed, scan, ScanContext.isSettled]

/-- Input to be placed in a function that is not complete has more than its first token, so that
no text behind it changes that token. -/
theorem needsWrapping_append {characters : List Char} (needs : needsWrapping characters = true)
    (unfinished : isComplete characters = false) (more : List Char) :
    needsWrapping (characters ++ more) = true := by
  rcases more with _ | ⟨next, more⟩
  · rwa [List.append_nil]
  cases trivia : triviaLength? .code characters with
  | none => simp [needsWrapping, firstWord, dropTrivia_eq, behindTrivia, trivia] at needs
  | some count =>
    have incomplete : isComplete (characters.drop count) ≠ true := fun complete =>
      absurd (isComplete_of_drop trivia complete) (by simp [unfinished])
    have inside : count < characters.length := by
      refine Nat.lt_of_not_le fun beyond => incomplete ?_
      rw [List.drop_of_length_le beyond]
      rfl
    have behind : triviaLength? .code (characters ++ next :: more) = some count := by
      refine triviaLength?_append trivia inside fun slash => absurd ?_ incomplete
      rw [slash]
      rfl
    have word : (characters.drop count ++ next :: more).takeWhile isWordPart =
        (characters.drop count).takeWhile isWordPart := by
      rw [List.takeWhile_append, if_neg]
      intro all
      have same := (List.takeWhile_prefix isWordPart).eq_of_length all
      refine incomplete (isComplete_of_word fun character member => ?_)
      rw [← same] at member
      exact List.all_eq_true.mp List.all_takeWhile character member
    have unread : characters.drop count ≠ [] := by
      rw [ne_eq, List.drop_eq_nil_iff]
      exact Nat.not_le_of_lt inside
    simp only [needsWrapping, firstWord, dropTrivia_eq, behindTrivia, trivia, behind,
      List.drop_append_of_le_length (Nat.le_of_lt inside), word] at needs ⊢
    simpa [unread] using needs

/-- Input that is held back to be placed in a function is placed in one with more text behind. -/
theorem needsWrapping_joinContinuation {buffer chunk : String}
    (needs : needsWrapping buffer.toList = true) (unfinished : isComplete buffer.toList = false) :
    needsWrapping (joinContinuation buffer chunk).toList = true := by
  rw [joinContinuation, String.toList_ofList, joinCharacters]
  split <;> exact needsWrapping_append needs unfinished _

end IncrementalC.Input
