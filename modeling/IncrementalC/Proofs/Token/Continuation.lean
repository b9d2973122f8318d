import IncrementalC.Token.Lexer

/-!
Contract: what more text changes about the tokens of a text.

A lexeme ends before a character that cannot continue it. So the tokens in front of such a
character are those of the text that stops there, and so is what is wrong with it.

Owns:
- the equations by which a text is read token by token;
- the tokens of a text to which a line break and more text are added.

Does not own: what the tokens mean to a reader of programs.
-/

namespace IncrementalC

/-! ## One token after the other -/

theorem ok_of_toOption {ε α : Type} {ended : Except ε α} {result : α}
    (some : ended.toOption = some result) : ended = .ok result := by
  cases ended with
  | error _ => cases some
  | ok _ => exact congrArg Except.ok (Option.some.inj some)

theorem map_eq_ok_iff {α β : Type} {change : α → β} {result : Except SourceError α} {value : β} :
    result.map change = .ok value ↔ ∃ inner, result = .ok inner ∧ change inner = value := by
  cases result <;> simp [Except.map]

theorem map_eq_error_iff {α β : Type} {change : α → β} {result : Except SourceError α}
    {problem : SourceError} : result.map change = .error problem ↔ result = .error problem := by
  cases result <;> simp [Except.map]

section

variable {cursor : Cursor} {skipped : Nat}

theorem tokensFrom_of_unended (unended : triviaLength? .code cursor.rest = none) :
    tokensFrom cursor = .error .incomplete := by
  rw [tokensFrom, unended]

theorem tokensFrom_of_blank (trivia : triviaLength? .code cursor.rest = some skipped)
    (blank : (cursor.advance skipped).rest = []) :
    tokensFrom cursor = .ok [⟨.endOfInput, .emptyAt (cursor.advance skipped).position⟩] := by
  rw [tokensFrom, trivia]
  dsimp only
  split
  · rfl
  · rename_i first rest more
    exact absurd (blank.symm.trans more) (by simp)

variable {first : Char} {rest : List Char}

/-- The token that starts at `first`, or what is wrong there, comes before all others. -/
theorem tokensFrom_of_more (trivia : triviaLength? .code cursor.rest = some skipped)
    (more : (cursor.advance skipped).rest = first :: rest) :
    tokensFrom cursor =
      (let start := cursor.advance skipped
      let next := start.advance ((readLexeme first rest).2 + 1)
      match (readLexeme first rest).1 with
      | .error problem =>
        .error (.invalid ⟨problem.code, problem.message, ⟨start.position, next.position⟩⟩)
      | .ok lexeme =>
        (tokensFrom next).map (⟨lexeme, ⟨start.position, next.position⟩⟩ :: ·)) := by
  rw [tokensFrom, trivia]
  dsimp only
  split
  · rename_i blank
    exact absurd (more.symm.trans blank) (by simp)
  · rename_i first' rest' again
    obtain ⟨rfl, rfl⟩ := List.cons.inj (more.symm.trans again)
    rfl

end

/-- What holds where only trivia are left, and in front of a token if it holds behind, holds of
every text that can be read. -/
theorem tokensFrom_ok_induction
    {motive : (cursor : Cursor) → (tokens : List Token) → tokensFrom cursor = .ok tokens → Prop}
    (stop : ∀ (cursor : Cursor) (skipped : Nat),
      triviaLength? .code cursor.rest = some skipped → cursor.rest.drop skipped = [] →
      ∀ read, motive cursor [⟨.endOfInput, .emptyAt (cursor.advance skipped).position⟩] read)
    (more : ∀ (cursor : Cursor) (skipped : Nat) (first : Char) (rest : List Char)
      (lexeme : Lexeme) (others : List Token),
      triviaLength? .code cursor.rest = some skipped → cursor.rest.drop skipped = first :: rest →
      (readLexeme first rest).1 = .ok lexeme →
      let start := cursor.advance skipped
      let next := start.advance ((readLexeme first rest).2 + 1)
      ∀ behind, motive next others behind →
      ∀ read, motive cursor (⟨lexeme, ⟨start.position, next.position⟩⟩ :: others) read)
    {cursor : Cursor} {tokens : List Token} (read : tokensFrom cursor = .ok tokens) :
    motive cursor tokens read := by
  revert tokens
  induction cursor using tokensFrom.induct with
  | case1 cursor unended =>
    intro tokens read
    cases (tokensFrom_of_unended unended).symm.trans read
  | case2 cursor skipped trivia start =>
    rename_i blank
    intro tokens read
    cases (tokensFrom_of_blank trivia blank).symm.trans read
    exact stop cursor skipped trivia blank read
  | case3 cursor skipped trivia start first rest found outcome problem =>
    rename_i failed
    intro tokens read
    have reads := (tokensFrom_of_more trivia found).symm.trans read
    simp only [outcome] at failed
    rw [failed] at reads
    cases reads
  | case4 cursor skipped trivia start first rest found outcome next lexeme readAs shorter =>
    rename_i inductionHypothesis
    intro tokens read
    have reads := (tokensFrom_of_more trivia found).symm.trans read
    simp only [outcome] at readAs
    rw [readAs] at reads
    obtain ⟨others, behind, rfl⟩ := map_eq_ok_iff.mp reads
    exact more cursor skipped first rest lexeme others trivia found readAs behind
      (inductionHypothesis behind) read

/-! ## More text behind a character that continues nothing -/

/-- The character continues no lexeme. -/
def Separates (character : Char) : Prop :=
  isWordPart character = false ∧ character ≠ '=' ∧ character ≠ '&' ∧ character ≠ '|'

theorem separates_newline : Separates '\n' := by
  unfold Separates
  decide

theorem separates_slash : Separates '/' := by
  unfold Separates
  decide

section

variable {character : Char} {more : List Char}

theorem takeWhile_append_cons {test : Char → Bool} (refused : test character = false)
    (rest : List Char) :
    (rest ++ character :: more).takeWhile test = rest.takeWhile test := by
  induction rest with
  | nil => simp [refused]
  | cons head tail inductionHypothesis =>
    rw [List.cons_append, List.takeWhile_cons, List.takeWhile_cons, inductionHypothesis]

/-- The lexeme at the front is the same if more text follows a separating character. -/
theorem readLexeme_append (separates : Separates character) (first : Char) (rest : List Char) :
    readLexeme first (rest ++ character :: more) = readLexeme first rest := by
  obtain ⟨noWord, notEqual, notAnd, notOr⟩ := separates
  have noDigit : character.isDigit = false := by
    simp only [isWordPart, Char.isAlphanum, Bool.or_eq_false_iff] at noWord
    exact noWord.1.2
  have next : ∀ symbol, character ≠ symbol →
      ((rest ++ character :: more).head? = some symbol ↔ rest.head? = some symbol) := by
    intro symbol differs
    cases rest <;> simp [differs]
  simp only [readLexeme, next '=' notEqual, next '&' notAnd, next '|' notOr,
    takeWhile_append_cons noDigit, takeWhile_append_cons noWord]

attribute [local simp] triviaLength?

theorem triviaLength?_cons {head : Char} {rest : List Char}
    (notLine : ∀ others, head = '/' → rest = '/' :: others → False)
    (notBlock : ∀ others, head = '/' → rest = '*' :: others → False) :
    triviaLength? .code (head :: rest) =
      if Text.isBlank head then (triviaLength? .code rest).map (· + 1) else some 0 := by
  rw [triviaLength?]
  · exact notLine
  · exact notBlock

theorem triviaLength?_blockComment_cons {head : Char} {rest : List Char}
    (unended : ∀ others, head = '*' → rest = '/' :: others → False) :
    triviaLength? .blockComment (head :: rest) =
      (triviaLength? .blockComment rest).map (· + 1) := by
  rw [triviaLength?]
  exact unended

/-- Trivia in front of a lexeme are the same if more text follows, unless that text makes a
comment of the last character. -/
theorem triviaLength?_append {context : TriviaContext} {characters : List Char} {count : Nat}
    (trivia : triviaLength? context characters = some count) (inside : count < characters.length)
    (apart : characters.drop count = ['/'] → character ≠ '/' ∧ character ≠ '*') :
    triviaLength? context (characters ++ character :: more) = some count := by
  fun_induction triviaLength? context characters generalizing count with
  | case1 => simp at inside
  | case2 rest inductionHypothesis | case3 rest inductionHypothesis
  | case10 rest inductionHypothesis =>
    obtain ⟨count, found, rfl⟩ := Option.map_eq_some_iff.mp trivia
    simp [inductionHypothesis found (by simpa using inside) (by simpa using apart)]
  | case4 head rest notLine notBlock blank inductionHypothesis =>
    obtain ⟨count, found, rfl⟩ := Option.map_eq_some_iff.mp trivia
    have noSlash : head ≠ '/' := by
      rintro rfl
      exact absurd blank (by decide)
    rw [List.cons_append, triviaLength?_cons (fun _ slash _ => noSlash slash)
      (fun _ slash _ => noSlash slash), if_pos blank,
      inductionHypothesis found (by simpa using inside) (by simpa using apart)]
    rfl
  | case5 head rest notLine notBlock blank =>
    obtain rfl : 0 = count := Option.some.inj trivia
    rw [List.cons_append, triviaLength?_cons ?_ ?_, if_neg blank]
    · rintro others rfl next
      cases rest with
      | nil => exact (apart rfl).1 (List.cons.inj next).1
      | cons second rest => exact notLine rest rfl (by rw [(List.cons.inj next).1])
    · rintro others rfl next
      cases rest with
      | nil => exact (apart rfl).2 (List.cons.inj next).1
      | cons second rest => exact notBlock rest rfl (by rw [(List.cons.inj next).1])
  | case6 => simp at inside
  | case7 rest inductionHypothesis =>
    obtain ⟨count, found, rfl⟩ := Option.map_eq_some_iff.mp trivia
    simp [inductionHypothesis found (by simpa using inside) (by simpa using apart)]
  | case8 head rest noBreak inductionHypothesis =>
    obtain ⟨count, found, rfl⟩ := Option.map_eq_some_iff.mp trivia
    simp [noBreak, inductionHypothesis found (by simpa using inside) (by simpa using apart)]
  | case9 => cases trivia
  | case11 head rest unended inductionHypothesis =>
    obtain ⟨count, found, rfl⟩ := Option.map_eq_some_iff.mp trivia
    have inside : count < rest.length := by simpa using inside
    rw [List.cons_append, triviaLength?_blockComment_cons ?_,
      inductionHypothesis found inside (by simpa using apart)]
    · rfl
    · rintro others rfl next
      cases rest with
      | nil => simp at inside
      | cons second rest => exact unended rest rfl (by rw [(List.cons.inj next).1])

/-- A line break ends a text of trivia, and more trivia may follow. -/
theorem triviaLength?_append_newline {context : TriviaContext} {characters : List Char}
    (trivia : triviaLength? context characters = some characters.length) :
    triviaLength? context (characters ++ '\n' :: more) =
      (triviaLength? .code more).map (· + (characters.length + 1)) := by
  fun_induction triviaLength? context characters with
  | case1 => rfl
  | case2 rest inductionHypothesis | case3 rest inductionHypothesis
  | case10 rest inductionHypothesis =>
    obtain ⟨count, found, counted⟩ := Option.map_eq_some_iff.mp trivia
    obtain rfl : count = rest.length := by simpa using counted
    simp only [List.cons_append, triviaLength?, inductionHypothesis found, Option.map_map]
    rfl
  | case4 head rest notLine notBlock blank inductionHypothesis =>
    obtain ⟨count, found, counted⟩ := Option.map_eq_some_iff.mp trivia
    obtain rfl : count = rest.length := by simpa using counted
    have noSlash : head ≠ '/' := by
      rintro rfl
      exact absurd blank (by decide)
    rw [List.cons_append, triviaLength?_cons (fun _ slash _ => noSlash slash)
      (fun _ slash _ => noSlash slash), if_pos blank, inductionHypothesis found, Option.map_map]
    rfl
  | case5 head rest notLine notBlock blank => simp at trivia
  | case6 => rfl
  | case7 rest inductionHypothesis =>
    obtain ⟨count, found, counted⟩ := Option.map_eq_some_iff.mp trivia
    obtain rfl : count = rest.length := by simpa using counted
    simp only [List.cons_append, triviaLength?, if_true, inductionHypothesis found,
      Option.map_map]
    rfl
  | case8 head rest noBreak inductionHypothesis =>
    obtain ⟨count, found, counted⟩ := Option.map_eq_some_iff.mp trivia
    obtain rfl : count = rest.length := by simpa using counted
    simp only [List.cons_append, triviaLength?, if_neg noBreak, inductionHypothesis found,
      Option.map_map]
    rfl
  | case9 => cases trivia
  | case11 head rest unended inductionHypothesis =>
    obtain ⟨count, found, counted⟩ := Option.map_eq_some_iff.mp trivia
    obtain rfl : count = rest.length := by simpa using counted
    rw [List.cons_append, triviaLength?_blockComment_cons ?_, inductionHypothesis found,
      Option.map_map]
    · rfl
    · rintro others rfl next
      cases rest with
      | nil => cases found
      | cons second rest => exact unended rest rfl (by rw [(List.cons.inj next).1])

end

/-! ## Whole texts -/

/-- No trivia follow the trivia at the front of a text. -/
theorem triviaLength?_drop {context : TriviaContext} {characters : List Char} {count : Nat}
    (trivia : triviaLength? context characters = some count) :
    triviaLength? .code (characters.drop count) = some 0 := by
  fun_induction triviaLength? context characters generalizing count with
  | case1 => rw [List.drop_nil]; rfl
  | case2 rest inductionHypothesis | case3 rest inductionHypothesis
  | case4 head rest notLine notBlock blank inductionHypothesis
  | case7 rest inductionHypothesis | case8 head rest noBreak inductionHypothesis
  | case10 rest inductionHypothesis | case11 head rest unended inductionHypothesis =>
    obtain ⟨count, found, rfl⟩ := Option.map_eq_some_iff.mp trivia
    exact inductionHypothesis found
  | case5 head rest notLine notBlock blank =>
    obtain rfl : 0 = count := Option.some.inj trivia
    rw [List.drop_zero, triviaLength?_cons notLine notBlock, if_neg blank]
  | case6 => rw [List.drop_nil]; rfl
  | case9 => cases trivia

theorem triviaLength?_le {context : TriviaContext} {characters : List Char} {count : Nat}
    (trivia : triviaLength? context characters = some count) : count ≤ characters.length := by
  fun_induction triviaLength? context characters generalizing count <;>
    grind [Option.map_eq_some_iff]

/-- Behind its first character a lexeme goes on for as many characters as are digits or parts of
words, or else for one or none. -/
theorem readLexeme_count (first : Char) (rest : List Char) :
    (readLexeme first rest).2 = 0 ∨
      ((readLexeme first rest).2 = 1 ∧
        (rest.head? = some '=' ∨ rest.head? = some '&' ∨ rest.head? = some '|')) ∨
      (readLexeme first rest).2 = (rest.takeWhile Char.isDigit).length ∨
      (readLexeme first rest).2 = (rest.takeWhile isWordPart).length := by
  unfold readLexeme
  grind

theorem readLexeme_le (first : Char) (rest : List Char) :
    (readLexeme first rest).2 ≤ rest.length := by
  rcases readLexeme_count first rest with none | ⟨one, next⟩ | digits | word
  · rw [none]
    exact Nat.zero_le _
  · cases rest with
    | nil => simp at next
    | cons head tail => simp [one]
  · rw [digits]
    exact (List.takeWhile_sublist _).length_le
  · rw [word]
    exact (List.takeWhile_sublist _).length_le

theorem isWordPart_of_isWordStart {character : Char} (start : isWordStart character = true) :
    isWordPart character = true := by
  simp only [isWordStart, isWordPart, Char.isAlphanum, Bool.or_eq_true] at start ⊢
  grind

/-- A lexeme is a word, a number or a mark, and its first character tells which. -/
theorem readLexeme_cases {first : Char} {rest : List Char} {lexeme : Lexeme}
    (read : (readLexeme first rest).1 = .ok lexeme) :
    (isWordStart first = true ∧ lexeme = .ofWord (first :: rest.takeWhile isWordPart)) ∨
      (first.isDigit = true ∧ ∃ value, lexeme = .integer value) ∨
      (isWordPart first = false ∧ ∃ symbol, lexeme = .mark symbol) := by
  have parts : isWordPart first = (isWordStart first || first.isDigit) := by
    simp only [isWordPart, isWordStart, Char.isAlphanum]
    grind
  unfold readLexeme at read
  split at read
  case h_18 =>
    split at read
    · rename_i digit
      dsimp only at read
      split at read
      · exact .inr (.inl ⟨digit, _, (Except.ok.inj read).symm⟩)
      · cases read
    · split at read
      · rename_i start
        exact .inl ⟨start, (Except.ok.inj read).symm⟩
      · cases read
  -- The characters of marks are no parts of words.
  all_goals
    refine .inr (.inr ⟨by decide, ?_⟩)
    grind

/-- No character is the end of input. -/
theorem readLexeme_ne_endOfInput {first : Char} {rest : List Char} {lexeme : Lexeme}
    (read : (readLexeme first rest).1 = .ok lexeme) : lexeme ≠ .endOfInput := by
  rcases readLexeme_cases read with ⟨-, rfl⟩ | ⟨-, value, rfl⟩ | ⟨-, symbol, rfl⟩
  · unfold Lexeme.ofWord
    split <;> simp
  · simp
  · simp

/-- The cursor in the text that goes on with `more`. -/
def Cursor.continuedBy (cursor : Cursor) (more : List Char) : Cursor :=
  ⟨cursor.rest ++ more, cursor.position⟩

theorem Cursor.advance_continuedBy (cursor : Cursor) {count : Nat}
    (inside : count ≤ cursor.rest.length) (more : List Char) :
    (cursor.continuedBy more).advance count = (cursor.advance count).continuedBy more := by
  simp only [advance, continuedBy, List.drop_append_of_le_length inside,
    List.take_append_of_le_length inside]

theorem Cursor.advance_add (cursor : Cursor) (count further : Nat) :
    cursor.advance (count + further) = (cursor.advance count).advance further := by
  simp only [advance, List.drop_drop, List.take_add, Position.advanceAll_append]

/-- Where a text ends does not depend on where in it the cursor stands. -/
theorem Cursor.advanceAll_advance (cursor : Cursor) (count : Nat) (more : List Char) :
    (cursor.advance count).position.advanceAll ((cursor.advance count).rest ++ more) =
      cursor.position.advanceAll (cursor.rest ++ more) := by
  simp only [advance, ← Position.advanceAll_append, ← List.append_assoc, List.take_append_drop]

theorem Cursor.advanceAll_rest_advance (cursor : Cursor) (count : Nat) :
    (cursor.advance count).position.advanceAll (cursor.advance count).rest =
      cursor.position.advanceAll cursor.rest := by
  have whole := cursor.advanceAll_advance count []
  rwa [List.append_nil, List.append_nil] at whole

section

variable {cursor : Cursor} {skipped : Nat} {first character : Char} {rest more : List Char}

/-- A token is read as before if a separating character follows the text. -/
theorem tokensFrom_continuedBy_of_more (separates : Separates character)
    (trivia : triviaLength? .code cursor.rest = some skipped)
    (found : (cursor.advance skipped).rest = first :: rest)
    (apart : first = '/' → rest = [] → character ≠ '/' ∧ character ≠ '*') :
    tokensFrom (cursor.continuedBy (character :: more)) =
      (let start := cursor.advance skipped
      let next := start.advance ((readLexeme first rest).2 + 1)
      match (readLexeme first rest).1 with
      | .error problem =>
        .error (.invalid ⟨problem.code, problem.message, ⟨start.position, next.position⟩⟩)
      | .ok lexeme =>
        (tokensFrom (next.continuedBy (character :: more))).map
          (⟨lexeme, ⟨start.position, next.position⟩⟩ :: ·)) := by
  have dropped : cursor.rest.drop skipped = first :: rest := found
  have inside : skipped < cursor.rest.length := by
    have := congrArg List.length dropped
    simp only [List.length_drop, List.length_cons] at this
    omega
  have longer : triviaLength? .code (cursor.continuedBy (character :: more)).rest =
      some skipped := by
    refine triviaLength?_append trivia inside fun slash => ?_
    obtain ⟨rfl, rfl⟩ := List.cons.inj (dropped.symm.trans slash)
    exact apart rfl rfl
  have start := cursor.advance_continuedBy (Nat.le_of_lt inside) (character :: more)
  have long : (readLexeme first rest).2 + 1 ≤ (cursor.advance skipped).rest.length := by
    rw [found]
    exact Nat.succ_le_succ (readLexeme_le first rest)
  have next := (cursor.advance skipped).advance_continuedBy long (character :: more)
  have foundLonger : ((cursor.continuedBy (character :: more)).advance skipped).rest =
      first :: (rest ++ character :: more) := by
    rw [start, Cursor.continuedBy, found]
    rfl
  rw [tokensFrom_of_more longer foundLonger, readLexeme_append separates, start]
  simp only [next]
  rfl

/-- A mark of one character is a token whatever follows it. -/
theorem tokensFrom_mark {symbol : Mark} (position : Position)
    (trivia : triviaLength? .code (first :: rest) = some 0)
    (read : readLexeme first rest = (.ok (.mark symbol), 0)) :
    tokensFrom ⟨first :: rest, position⟩ = (tokensFrom ⟨rest, position.advance first⟩).map
      (⟨.mark symbol, ⟨position, position.advance first⟩⟩ :: ·) := by
  have start : (⟨first :: rest, position⟩ : Cursor).advance 0 = ⟨first :: rest, position⟩ := rfl
  rw [tokensFrom_of_more trivia (congrArg Cursor.rest start)]
  simp only [read]
  rfl

/-- A text that holds only trivia has no token but the end. -/
theorem tokensFrom_nil {cursor : Cursor} (ended : cursor.rest = []) :
    tokensFrom cursor = .ok [⟨.endOfInput, .emptyAt cursor.position⟩] := by
  have trivia : triviaLength? .code cursor.rest = some 0 := by rw [ended]; rfl
  have start : cursor.advance 0 = cursor := rfl
  rw [tokensFrom_of_blank trivia (by rw [start, ended]), start]

/-- What is wrong with a text stays wrong if a separating character and more text follow. -/
theorem tokensFrom_continuedBy_of_invalid {diagnostic : Diagnostic}
    (separates : Separates character) (wrong : tokensFrom cursor = .error (.invalid diagnostic))
    (more : List Char) :
    tokensFrom (cursor.continuedBy (character :: more)) = .error (.invalid diagnostic) := by
  induction cursor using tokensFrom.induct with
  | case1 cursor unended =>
    rw [tokensFrom_of_unended unended] at wrong
    cases wrong
  | case2 cursor skipped trivia start blank =>
    rw [tokensFrom_of_blank trivia blank] at wrong
    cases wrong
  | case3 cursor skipped trivia start first rest found outcome problem failed =>
    rw [tokensFrom_of_more trivia found] at wrong
    rw [tokensFrom_continuedBy_of_more separates trivia found ?_]
    · simp only [outcome] at failed
      simp only [failed] at wrong ⊢
      exact wrong
    · -- A slash alone is a lexeme.
      rintro rfl -
      cases failed
  | case4 cursor skipped trivia start first rest found outcome next lexeme read shorter
      inductionHypothesis =>
    simp only [outcome] at read
    rw [tokensFrom_of_more trivia found] at wrong
    simp only [read] at wrong
    have wrongNext : tokensFrom next = .error (.invalid diagnostic) := map_eq_error_iff.mp wrong
    rw [tokensFrom_continuedBy_of_more separates trivia found ?_]
    · have final := inductionHypothesis wrongNext
      simp only [next, start, outcome] at final
      simp only [read, final, Except.map]
    · -- Behind a slash that ends the text nothing is wrong.
      rintro rfl rfl
      have ended : next.rest = [] := by
        simp only [next, Cursor.advance, start, outcome] at found ⊢
        rw [found]
        rfl
      rw [tokensFrom_nil ended] at wrongNext
      cases wrongNext

/-- Trivia in front of a text may be skipped first. -/
theorem tokensFrom_advance (count : Nat)
    (trivia : triviaLength? .code cursor.rest =
      (triviaLength? .code (cursor.advance count).rest).map (· + count)) :
    tokensFrom cursor = tokensFrom (cursor.advance count) := by
  cases behind : triviaLength? .code (cursor.advance count).rest with
  | none =>
    rw [behind] at trivia
    rw [tokensFrom_of_unended trivia, tokensFrom_of_unended behind]
  | some skipped =>
    rw [behind, Option.map_some, Nat.add_comm] at trivia
    have start := Cursor.advance_add cursor count skipped
    cases found : ((cursor.advance count).advance skipped).rest with
    | nil => rw [tokensFrom_of_blank trivia (by rw [start, found]),
        tokensFrom_of_blank behind found, start]
    | cons first rest => rw [tokensFrom_of_more trivia (by rw [start, found]),
        tokensFrom_of_more behind found, start]

/-- The tokens of a text come first if a line break and more text follow it. -/
theorem tokensFrom_newline {tokens : List Token} (read : tokensFrom cursor = .ok tokens) :
    ∃ before stop, tokens = before ++ [stop] ∧ stop.lexeme = .endOfInput ∧
      (∀ token ∈ before, token.lexeme ≠ .endOfInput) ∧
      ∀ more, tokensFrom (cursor.continuedBy ('\n' :: more)) =
        (tokensFrom ⟨more, cursor.position.advanceAll (cursor.rest ++ ['\n'])⟩).map
          (before ++ ·) := by
  induction read using tokensFrom_ok_induction with
  | stop cursor skipped trivia blank =>
    refine ⟨[], _, rfl, rfl, by simp, fun more => ?_⟩
    have all : skipped = cursor.rest.length :=
      Nat.le_antisymm (triviaLength?_le trivia) (List.drop_eq_nil_iff.mp blank)
    subst all
    have behind : (cursor.continuedBy ('\n' :: more)).advance (cursor.rest.length + 1) =
        ⟨more, cursor.position.advanceAll (cursor.rest ++ ['\n'])⟩ := by
      simp [Cursor.advance, Cursor.continuedBy, List.take_append, List.drop_append,
        List.take_of_length_le]
    rw [tokensFrom_advance (cursor.rest.length + 1) ?_, behind]
    · cases tokensFrom ⟨more, _⟩ <;> rfl
    · rw [behind]
      exact triviaLength?_append_newline trivia
  | more cursor skipped first rest lexeme others trivia found readAs start next behind
      inductionHypothesis =>
    obtain ⟨before, stop, rfl, ended, unended, longer⟩ := inductionHypothesis
    refine ⟨_ :: before, stop, rfl, ended, ?_, fun more => ?_⟩
    · exact List.forall_mem_cons.mpr ⟨readLexeme_ne_endOfInput readAs, unended⟩
    · rw [tokensFrom_continuedBy_of_more separates_newline trivia found fun _ _ => by decide]
      simp only [readAs]
      simp only [next, start, Cursor.advanceAll_advance] at longer
      rw [longer more]
      cases tokensFrom ⟨more, _⟩ <;> rfl

theorem tokensFrom_ne_nil (cursor : Cursor) : tokensFrom cursor ≠ .ok [] := by
  intro none
  cases trivia : triviaLength? .code cursor.rest with
  | none =>
    rw [tokensFrom_of_unended trivia] at none
    cases none
  | some skipped =>
    cases found : (cursor.advance skipped).rest with
    | nil =>
      rw [tokensFrom_of_blank trivia found] at none
      cases none
    | cons first rest =>
      rw [tokensFrom_of_more trivia found] at none
      cases read : (readLexeme first rest).1 with
      | error problem => simp [read] at none
      | ok lexeme =>
        simp only [read] at none
        obtain ⟨_, -, absent⟩ := map_eq_ok_iff.mp none
        cases absent

end

/-- The tokens of a text and a line break are followed by those of the text behind it. -/
theorem tokenize_newline {text : String} {tokens : List Token}
    (read : tokenize text = .ok tokens) :
    ∃ before stop, tokens = before ++ [stop] ∧ stop.lexeme = .endOfInput ∧
      (∀ token ∈ before, token.lexeme ≠ .endOfInput) ∧
      ∀ more : String, tokenize (text ++ "\n" ++ more) =
        (tokensFrom ⟨more.toList, Position.first.advanceAll (text ++ "\n").toList⟩).map
          (before ++ ·) := by
  obtain ⟨before, stop, split, ended, unended, longer⟩ := tokensFrom_newline read
  refine ⟨before, stop, split, ended, unended, fun more => ?_⟩
  simpa [tokenize, Cursor.atStart, Cursor.continuedBy] using longer more.toList

/-- A character that cannot be read is reported whatever follows its line. -/
theorem tokenize_newline_of_invalid {text : String} {diagnostic : Diagnostic}
    (wrong : tokenize text = .error (.invalid diagnostic)) (more : String) :
    tokenize (text ++ "\n" ++ more) = .error (.invalid diagnostic) := by
  have longer := tokensFrom_continuedBy_of_invalid separates_newline wrong more.toList
  simpa [tokenize, Cursor.atStart, Cursor.continuedBy] using longer

end IncrementalC
