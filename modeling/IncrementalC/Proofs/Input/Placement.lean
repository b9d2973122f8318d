import Mathlib.Data.Bool.AllAny
import IncrementalC.Input.Wrapping
import IncrementalC.Proofs.Syntax.Braces
import IncrementalC.Proofs.Syntax.Program
import IncrementalC.Proofs.Syntax.Relocation

/-!
Contract: the text of the function that input is placed in.

A whole line stands before the input and another one behind it. So the tokens of the text are
those of the first line, those of the input one line further down, and those of the last line.

Owns:
- the lines around placed input and what of the input is placed;
- the tokens of the text, and the function that it spells if the input is one expression or a
  list of statements.

Does not own: input that spells anything else.
-/

namespace IncrementalC.Input

open Syntax (nestingLimit beforeEnd)

/-! ## The lines around the input -/

/-- The line in front of placed input. -/
def wrapperOpening (entry : String) : WrapKind → String
  | .value => "auto " ++ entry ++ "() \x7b return (\n"
  | .statements => "void " ++ entry ++ "() \x7b\n"

/-- The line behind placed input. -/
def wrapperClosing : WrapKind → String
  | .value => "); \x7d"
  | .statements => ";\x7d"

/-- The characters of input that are placed. -/
def placed (kind : WrapKind) (input : List Char) : List Char :=
  match kind with
  | .value => dropSemicolon (Text.trimEnd input)
  | .statements => Text.trimEnd input

/-- How many bytes stand in front of placed input. -/
def bytesBefore (entry : String) (kind : WrapKind) : Nat := (wrapperOpening entry kind).utf8ByteSize

theorem toList_wrapperText (entry : String) (kind : WrapKind) (input : List Char) :
    (wrapperText entry kind (Text.trimEnd input)).toList =
      (wrapperOpening entry kind).toList ++
        (placed kind input ++ '\n' :: (wrapperClosing kind).toList) := by
  cases kind <;> simp [wrapperText, wrapperOpening, wrapperClosing, placed]

/-! ## Whole lines -/

theorem offset_advanceAll (position : Position) (characters : List Char) :
    (position.advanceAll characters).offset =
      position.offset + (String.ofList characters).utf8ByteSize := by
  induction characters generalizing position with
  | nil => rfl
  | cons head rest inductionHypothesis =>
    rw [Position.advanceAll_cons, inductionHypothesis, Position.offset_advance, String.ofList_cons,
      String.utf8ByteSize_append, String.utf8ByteSize_singleton, Nat.add_assoc]

theorem line_advanceAll {characters : List Char} (noBreak : '\n' ∉ characters)
    (position : Position) : (position.advanceAll characters).line = position.line := by
  induction characters generalizing position with
  | nil => rfl
  | cons head rest inductionHypothesis =>
    rw [List.mem_cons, not_or] at noBreak
    rw [Position.advanceAll_cons, inductionHypothesis noBreak.2, Position.advance,
      if_neg (Ne.symm noBreak.1)]

/-- Behind one line of a text comes the start of the next one. -/
theorem advanceAll_line {line : String} (noBreak : '\n' ∉ line.toList) :
    Position.first.advanceAll (line ++ "\n").toList =
      Position.first.below 1 (line ++ "\n").utf8ByteSize := by
  have number := line_advanceAll noBreak .first
  have bytes := offset_advanceAll .first line.toList
  rw [String.ofList_toList] at bytes
  rw [String.toList_append, Position.advanceAll_append, String.utf8ByteSize_append]
  change (Position.first.advanceAll line.toList).advance '\n' = _
  rw [Position.advance, if_pos rfl, number, bytes]
  rfl

/-! ## Lexemes that do not depend on what follows -/

/-- The characters are a letter or an underscore and parts of words, and together they are the
lexeme. -/
structure IsWord (word : List Char) (lexeme : Lexeme) : Prop where
  starts : ∃ first more, word = first :: more ∧ isWordStart first = true ∧
    ∀ character ∈ more, isWordPart character = true
  denotes : Lexeme.ofWord word = lexeme

/-- The characters are read as the lexemes, whatever follows them. A word is followed by a
character that is no part of one. -/
inductive Spelled : List Char → List Lexeme → Prop where
  | nil : Spelled [] []
  | blank {character : Char} {rest : List Char} {lexemes : List Lexeme}
      (blank : Text.isBlank character = true) (spelled : Spelled rest lexemes) :
      Spelled (character :: rest) lexemes
  | mark {character : Char} {symbol : Mark} {rest : List Char} {lexemes : List Lexeme}
      (alone : ∀ rest, readLexeme character rest = (.ok (.mark symbol), 0))
      (noComment : character ≠ '/') (solid : Text.isBlank character = false)
      (spelled : Spelled rest lexemes) :
      Spelled (character :: rest) (.mark symbol :: lexemes)
  | word {word rest : List Char} {next : Char} {lexeme : Lexeme} {lexemes : List Lexeme}
      (isWord : IsWord word lexeme) (ends : isWordPart next = false)
      (spelled : Spelled (next :: rest) lexemes) :
      Spelled (word ++ next :: rest) (lexeme :: lexemes)

theorem triviaLength?_of_solid {character : Char} {rest : List Char} (noComment : character ≠ '/')
    (solid : Text.isBlank character = false) :
    triviaLength? .code (character :: rest) = some 0 := by
  rw [triviaLength?_cons (fun _ slash _ => noComment slash) (fun _ slash _ => noComment slash),
    solid]
  rfl

theorem solid_of_isWordPart {character : Char} (part : isWordPart character = true) :
    character ≠ '/' ∧ Text.isBlank character = false := by
  constructor
  · rintro rfl
    exact absurd part (by decide)
  · cases blank : Text.isBlank character with
    | false => rfl
    | true => exact absurd part (by simp [(separates_of_isBlank blank).1.1])

/-- A character that starts a word is read together with all parts of words behind it. -/
theorem readLexeme_of_isWordStart {first : Char} (start : isWordStart first = true)
    (rest : List Char) :
    readLexeme first rest =
      (.ok (.ofWord (first :: rest.takeWhile isWordPart)), (rest.takeWhile isWordPart).length) := by
  have noDigit : first.isDigit = false := by
    simp only [isWordStart, Bool.or_eq_true, beq_iff_eq] at start
    rcases start with letter | rfl
    · simp only [isAlpha_eq, Char.isDigit, Bool.or_eq_true, Bool.and_eq_true,
        decide_eq_true_eq] at letter ⊢
      grind
    · decide
  unfold readLexeme
  split
  case h_18 =>
    rw [if_neg (by simp [noDigit]), if_pos start]
  all_goals exact absurd start (by decide)

theorem takeWhile_of_parts {more rest : List Char} {next : Char}
    (parts : ∀ character ∈ more, isWordPart character = true) (ends : isWordPart next = false) :
    (more ++ next :: rest).takeWhile isWordPart = more := by
  rw [List.takeWhile_append_of_pos parts, List.takeWhile_cons_of_neg (by simp [ends]),
    List.append_nil]

theorem map_append_map (before after : List Token) (result : Except SourceError (List Token)) :
    (result.map (after ++ ·)).map (before ++ ·) = result.map (before ++ after ++ ·) := by
  cases result <;> simp [Except.map]

/-- The tokens of the characters stand before the tokens of what follows. -/
theorem Spelled.tokens {characters : List Char} {lexemes : List Lexeme}
    (spelled : Spelled characters lexemes) (position : Position) :
    ∃ tokens : List Token, tokens.map Token.lexeme = lexemes ∧
      ∀ rest, tokensFrom ⟨characters ++ rest, position⟩ =
        (tokensFrom ⟨rest, position.advanceAll characters⟩).map (tokens ++ ·) := by
  induction spelled generalizing position with
  | nil =>
    refine ⟨[], rfl, fun rest => ?_⟩
    rw [List.nil_append, Position.advanceAll_nil]
    cases tokensFrom ⟨rest, position⟩ <;> rfl
  | @blank character characters lexemes blank spelled inductionHypothesis =>
    obtain ⟨tokens, same, reads⟩ := inductionHypothesis (position.advance character)
    obtain ⟨-, noSlash, -⟩ := separates_of_isBlank blank
    refine ⟨tokens, same, fun rest => ?_⟩
    rw [Position.advanceAll_cons, ← reads]
    refine tokensFrom_advance 1 ?_
    rw [List.cons_append, triviaLength?_cons (fun _ slash _ => noSlash slash)
      (fun _ slash _ => noSlash slash), if_pos blank]
    rfl
  | @mark character symbol characters lexemes alone noComment solid spelled inductionHypothesis =>
    obtain ⟨tokens, same, reads⟩ := inductionHypothesis (position.advance character)
    refine ⟨⟨.mark symbol, ⟨position, position.advance character⟩⟩ :: tokens,
      congrArg (_ :: ·) same, fun rest => ?_⟩
    rw [List.cons_append, tokensFrom_mark position (triviaLength?_of_solid noComment solid)
      (alone _), reads]
    exact map_append_map [_] tokens _
  | @word word characters next lexeme lexemes isWord ends spelled inductionHypothesis =>
    obtain ⟨tokens, same, reads⟩ := inductionHypothesis (position.advanceAll word)
    obtain ⟨⟨first, more, rfl, start, parts⟩, rfl⟩ := isWord
    obtain ⟨noComment, solid⟩ := solid_of_isWordPart (isWordPart_of_isWordStart start)
    refine ⟨⟨.ofWord (first :: more), ⟨position, position.advanceAll (first :: more)⟩⟩ :: tokens,
      congrArg (_ :: ·) same, fun rest => ?_⟩
    rw [List.append_assoc]
    generalize whole : (first :: more) ++ ((next :: characters) ++ rest) = text
    have trivia : triviaLength? .code text = some 0 :=
      whole ▸ triviaLength?_of_solid noComment solid
    have here : ((⟨text, position⟩ : Cursor).advance 0).rest =
        first :: (more ++ next :: (characters ++ rest)) := whole.symm
    have behind : (⟨text, position⟩ : Cursor).advance (more.length + 1) =
        ⟨(next :: characters) ++ rest, position.advanceAll (first :: more)⟩ := by
      simp [Cursor.advance, ← whole]
    have read := readLexeme_of_isWordStart start (more ++ next :: (characters ++ rest))
    rw [takeWhile_of_parts parts ends] at read
    rw [tokensFrom_of_more trivia here, read]
    dsimp only
    rw [← Cursor.advance_add, Nat.zero_add, behind, reads, Position.advanceAll_append]
    exact map_append_map [_] tokens _

/-- Where nothing follows, there are the tokens of the characters and the end of input. -/
theorem Spelled.ended {characters : List Char} {lexemes : List Lexeme}
    (spelled : Spelled characters lexemes) (position : Position) :
    ∃ tokens final, tokens.map Token.lexeme = lexemes ∧ final.lexeme = .endOfInput ∧
      tokensFrom ⟨characters, position⟩ = .ok (tokens ++ [final]) := by
  obtain ⟨tokens, same, reads⟩ := spelled.tokens position
  have whole := reads []
  have ended : ∀ place, tokensFrom ⟨[], place⟩ = .ok [⟨.endOfInput, .emptyAt place⟩] :=
    fun _ => tokensFrom_nil rfl
  rw [List.append_nil, ended] at whole
  exact ⟨tokens, _, same, rfl, whole⟩

/-! ## Words -/

theorem isWord_keyword (keyword : Keyword) :
    IsWord keyword.spelling.toList (.keyword keyword) := by
  cases keyword <;>
    exact ⟨⟨_, _, rfl, by decide, List.all_eq_true.mp (by decide)⟩, by decide⟩

/-- A generated name is a word, and no reserved one. -/
theorem isWord_generated (number : Nat) :
    IsWord (generatedStem ++ toString number).toList
      (.identifier (generatedStem ++ toString number)) := by
  have digits : ∀ character ∈ (toString number).toList, isWordPart character = true := by
    intro character member
    rw [Nat.toString_eq_repr, Nat.toList_repr] at member
    have digit := Nat.isDigit_of_mem_toDigits (by decide) (by decide) member
    simp [isWordPart, Char.isAlphanum, digit]
  have parts : ∀ character ∈ generatedStem.toList, isWordPart character = true :=
    List.all_eq_true.mp (by decide)
  constructor
  · refine ⟨'_', "_weft_Un1Qu3".toList ++ (toString number).toList, ?_, by decide, ?_⟩
    · rw [String.toList_append]
      rfl
    · intro character member
      exact (List.mem_append.mp member).elim
        (fun stem => parts character (List.mem_cons_of_mem '_' stem)) (digits character)
  · unfold Lexeme.ofWord
    split
    · rename_i keyword found
      have spelled := List.find?_some found
      rw [String.ofList_toList, beq_iff_eq] at spelled
      have first : ∀ keyword : Keyword, keyword.spelling.toList.head? ≠ some '_' := by
        intro keyword
        cases keyword <;> decide
      refine absurd ?_ (first keyword)
      rw [spelled, String.toList_append]
      rfl
    · rw [String.ofList_toList]

theorem isWord_reserveUntil (taken : List String) (attempts : Nat) (supply : NameSupply) :
    IsWord (supply.reserveUntil taken attempts).1.toList
      (.identifier (supply.reserveUntil taken attempts).1) := by
  induction attempts generalizing supply with
  | zero => exact isWord_generated supply.issued
  | succ attempts inductionHypothesis =>
    rw [NameSupply.reserveUntil]
    split
    · exact inductionHypothesis _
    · exact isWord_generated supply.issued

/-- The name of the function that input is placed in is a word. -/
theorem isWord_entry (supply : NameSupply) (input : List Char) (kind : WrapKind)
    (taken : List String) :
    IsWord (wrap supply input kind taken).1.entry.toList
      (.identifier (wrap supply input kind taken).1.entry) :=
  isWord_reserveUntil taken taken.length supply

/-! ## The tokens of the text -/

/-- The lexemes of the line in front of placed input. -/
def openingLexemes (entry : String) : WrapKind → List Lexeme
  | .value => [.keyword .autoType, .identifier entry, .mark .openParen, .mark .closeParen,
      .mark .openBrace, .keyword .returnWord, .mark .openParen]
  | .statements => [.keyword .voidType, .identifier entry, .mark .openParen, .mark .closeParen,
      .mark .openBrace]

/-- The lexemes of the line behind placed input. -/
def closingLexemes : WrapKind → List Lexeme
  | .value => [.mark .closeParen, .mark .semicolon, .mark .closeBrace]
  | .statements => [.mark .semicolon, .mark .closeBrace]

theorem spelled_wrapperOpening {entry : String}
    (named : IsWord entry.toList (.identifier entry)) (kind : WrapKind) :
    Spelled (wrapperOpening entry kind).toList (openingLexemes entry kind) := by
  have opens : ∀ {rest : List Char} {lexemes : List Lexeme}, Spelled rest lexemes →
      Spelled ("() \x7b".toList ++ rest)
        (.mark .openParen :: .mark .closeParen :: .mark .openBrace :: lexemes) := fun spelled =>
    .mark (fun _ => rfl) (by decide) (by decide) (.mark (fun _ => rfl) (by decide) (by decide)
      (.blank (by decide) (.mark (fun _ => rfl) (by decide) (by decide) spelled)))
  cases kind with
  | value =>
    have returns : Spelled " return (\n".toList [.keyword .returnWord, .mark .openParen] :=
      .blank (by decide) (.word (isWord_keyword .returnWord) (by decide)
        (.blank (by decide) (.mark (fun _ => rfl) (by decide) (by decide)
          (.blank (by decide) .nil))))
    have spelled : Spelled
        ("auto".toList ++ ' ' :: (entry.toList ++ '(' :: (") \x7b".toList ++ " return (\n".toList)))
        (openingLexemes entry .value) :=
      .word (isWord_keyword .autoType) (by decide)
        (.blank (by decide) (.word named (by decide) (opens returns)))
    simpa [wrapperOpening] using spelled
  | statements =>
    have spelled : Spelled
        ("void".toList ++ ' ' :: (entry.toList ++ '(' :: (") \x7b".toList ++ ['\n'])))
        (openingLexemes entry .statements) :=
      .word (isWord_keyword .voidType) (by decide)
        (.blank (by decide) (.word named (by decide) (opens (.blank (by decide) .nil))))
    simpa [wrapperOpening] using spelled

/-- The line in front of placed input is one line. -/
theorem advanceAll_wrapperOpening {entry : String}
    (named : IsWord entry.toList (.identifier entry)) (kind : WrapKind) :
    Position.first.advanceAll (wrapperOpening entry kind).toList =
      Position.first.below 1 (bytesBefore entry kind) := by
  have noBreak : '\n' ∉ entry.toList := by
    obtain ⟨first, more, split, start, parts⟩ := named.starts
    rw [split]
    intro member
    rcases List.mem_cons.mp member with rfl | later
    · exact absurd start (by decide)
    · exact absurd (parts _ later) (by decide)
  cases kind with
  | value =>
    have line : wrapperOpening entry .value = ("auto " ++ entry ++ "() \x7b return (") ++ "\n" := by
      simp [wrapperOpening, String.append_assoc]
    rw [bytesBefore, line]
    exact advanceAll_line (by simp [noBreak])
  | statements =>
    have line : wrapperOpening entry .statements = ("void " ++ entry ++ "() \x7b") ++ "\n" := by
      simp [wrapperOpening, String.append_assoc]
    rw [bytesBefore, line]
    exact advanceAll_line (by simp [noBreak])

theorem spelled_wrapperClosing (kind : WrapKind) :
    Spelled (wrapperClosing kind).toList (closingLexemes kind) := by
  cases kind with
  | value =>
    exact .mark (fun _ => rfl) (by decide) (by decide) (.mark (fun _ => rfl) (by decide) (by decide)
      (.blank (by decide) (.mark (fun _ => rfl) (by decide) (by decide) .nil)))
  | statements =>
    exact .mark (fun _ => rfl) (by decide) (by decide)
      (.mark (fun _ => rfl) (by decide) (by decide) .nil)

theorem tokensFrom_wrapperClosing (kind : WrapKind) (position : Position) :
    ∃ closing final, closing.map Token.lexeme = closingLexemes kind ∧
      final.lexeme = .endOfInput ∧
      tokensFrom ⟨(wrapperClosing kind).toList, position⟩ = .ok (closing ++ [final]) :=
  (spelled_wrapperClosing kind).ended position

/-- The text of the function is read as its first line, and then from the second line on. -/
theorem tokenize_wrapperText {entry : String} (named : IsWord entry.toList (.identifier entry))
    (kind : WrapKind) (input : List Char) :
    ∃ opening : List Token, opening.map Token.lexeme = openingLexemes entry kind ∧
      tokenize (wrapperText entry kind (Text.trimEnd input)) =
        (tokensFrom (((Cursor.atStart (placed kind input)).moved
          (.below 1 (bytesBefore entry kind))).continuedBy
            ('\n' :: (wrapperClosing kind).toList))).map (opening ++ ·) := by
  obtain ⟨opening, same, reads⟩ := (spelled_wrapperOpening named kind).tokens .first
  refine ⟨opening, same, ?_⟩
  rw [tokenize, Cursor.atStart, toList_wrapperText, reads, advanceAll_wrapperOpening named]
  rfl

/-- If what is placed has tokens, the text has them one line further down. -/
theorem tokenize_wrapperText_of_ok {entry : String}
    (named : IsWord entry.toList (.identifier entry)) {kind : WrapKind} {input : List Char}
    {before : List Token} {stop : Token}
    (read : tokensFrom (.atStart (placed kind input)) = .ok (before ++ [stop])) :
    ∃ opening closing final, opening.map Token.lexeme = openingLexemes entry kind ∧
      closing.map Token.lexeme = closingLexemes kind ∧ final.lexeme = .endOfInput ∧
      tokenize (wrapperText entry kind (Text.trimEnd input)) =
        .ok (opening ++ (before.map (Token.moved (.below 1 (bytesBefore entry kind))) ++
          (closing ++ [final]))) := by
  have moved := tokensFrom_moved (carries_below 1 (bytesBefore entry kind))
    (.atStart (placed kind input))
  rw [read] at moved
  obtain ⟨front, last, split, -, -, longer⟩ := tokensFrom_newline moved
  rw [List.map_append, List.map_singleton] at split
  obtain ⟨rfl, -⟩ := List.append_inj' split rfl
  obtain ⟨opening, opens, whole⟩ := tokenize_wrapperText named kind input
  rw [longer] at whole
  obtain ⟨closing, final, closes, ends, behind⟩ := tokensFrom_wrapperClosing kind _
  rw [behind] at whole
  exact ⟨opening, closing, final, opens, closes, ends, whole⟩

/-- If the text has tokens, what is placed has. -/
theorem ok_of_tokenize_wrapperText {entry : String}
    (named : IsWord entry.toList (.identifier entry)) {kind : WrapKind} {input : List Char}
    {tokens : List Token}
    (read : tokenize (wrapperText entry kind (Text.trimEnd input)) = .ok tokens) :
    ∃ inside, tokensFrom (.atStart (placed kind input)) = .ok inside := by
  obtain ⟨opening, -, whole⟩ := tokenize_wrapperText named kind input
  obtain ⟨others, behind, -⟩ := map_eq_ok_iff.mp (whole.symm.trans read)
  have moved := tokensFrom_moved (carries_below 1 (bytesBefore entry kind))
    (.atStart (placed kind input))
  rcases inside : tokensFrom (.atStart (placed kind input)) with (_ | diagnostic) | tokens
  · rw [inside] at moved
    have plain : ∀ character ∈ '\n' :: (wrapperClosing kind).toList,
        Separates character ∧ character ≠ '/' ∧ character ≠ '*' := by
      unfold Separates
      cases kind <;> exact List.all_iff_forall_prop.mp (by decide)
    cases (tokensFrom_append_of_incomplete plain moved).symm.trans behind
  · rw [inside] at moved
    cases (tokensFrom_continuedBy_of_invalid separates_newline moved _).symm.trans behind
  · exact ⟨tokens, rfl⟩

/-! ## What is placed -/

open Syntax (Expression Statement SpellsExpression SpellsStatements)

/-- The tokens of the text are those of one expression. A semicolon may follow them if it is the
last character of the text but for white space. -/
inductive FormsExpression (allowance : Nat) (text : String) (tree : Expression) : Prop where
  | bare {tokens : List Token} (read : tokenize text = .ok tokens)
      (spelled : SpellsExpression allowance (beforeEnd tokens) tree)
  | closed {tokens before : List Token} {span : Span} (read : tokenize text = .ok tokens)
      (split : beforeEnd tokens = before ++ [⟨.mark .semicolon, span⟩])
      (last : span.stop = Position.first.advanceAll (Text.trimEnd text.toList))
      (spelled : SpellsExpression allowance before tree)

/-- The tokens of the text are those of statements. -/
def FormsStatements (allowance : Nat) (text : String) (body : List Statement) : Prop :=
  ∃ tokens, tokenize text = .ok tokens ∧ SpellsStatements allowance (beforeEnd tokens) body

/-- Tokens that were read are those before the end, and the end. -/
theorem exists_split {cursor : Cursor} {tokens : List Token}
    (read : tokensFrom cursor = .ok tokens) :
    ∃ stop, stop.lexeme = .endOfInput ∧ tokens = beforeEnd tokens ++ [stop] := by
  obtain ⟨before, stop, rfl, ended, unended, -⟩ := tokensFrom_newline read
  have ends : Syntax.Parser.nextLexeme [stop] = .endOfInput := ended
  exact ⟨stop, ended, by rw [Syntax.beforeEnd_append unended ends]⟩

/-- White space at the end of a text holds no tokens. -/
theorem tokens_trimEnd {text : String} {tokens : List Token} (read : tokenize text = .ok tokens) :
    ∃ stop, stop.lexeme = .endOfInput ∧
      tokensFrom (.atStart (Text.trimEnd text.toList)) = .ok (beforeEnd tokens ++ [stop]) := by
  obtain ⟨stop, ended, split⟩ := exists_split read
  rw [tokenize, split] at read
  exact tokensFrom_trimEnd ended read

theorem separates_semicolon : Separates ';' := by
  unfold Separates
  decide

theorem dropSemicolon_concat (characters : List Char) :
    dropSemicolon (characters ++ [';']) = characters := by
  simp [dropSemicolon]

theorem dropSemicolon_cases (characters : List Char) :
    dropSemicolon characters = characters ∨
      characters = dropSemicolon characters ++ [';'] := by
  by_cases last : characters.getLast? = some ';'
  · obtain ⟨front, rfl⟩ := List.getLast?_eq_some_iff.mp last
    exact .inr (by rw [dropSemicolon_concat])
  · exact .inl (if_neg last)

/-- White space, or a semicolon and white space. -/
def IsEnding (characters : List Char) : Prop :=
  ∃ blanks, (∀ character ∈ blanks, Text.isBlank character = true) ∧
    (characters = blanks ∨ characters = ';' :: blanks)

theorem IsEnding.of_mem {characters : List Char} (ending : IsEnding characters)
    {character : Char} (member : character ∈ characters) :
    Text.isBlank character = true ∨ character = ';' := by
  obtain ⟨blanks, allBlank, rfl | rfl⟩ := ending
  · exact .inl (allBlank character member)
  · exact (List.mem_cons.mp member).symm.imp_left (allBlank character)

/-- No more than an ending is left behind what is placed of a text. -/
theorem placed_split (kind : WrapKind) (characters : List Char) :
    ∃ behind, IsEnding behind ∧ characters = placed kind characters ++ behind := by
  obtain ⟨blanks, split, allBlank⟩ := trimEnd_split characters
  cases kind with
  | statements => exact ⟨blanks, ⟨blanks, allBlank, .inl rfl⟩, split⟩
  | value =>
    rcases dropSemicolon_cases (Text.trimEnd characters) with whole | semicolon
    · refine ⟨blanks, ⟨blanks, allBlank, .inl rfl⟩, ?_⟩
      rw [placed, whole, ← split]
    · refine ⟨';' :: blanks, ⟨blanks, allBlank, .inr rfl⟩, ?_⟩
      rw [placed, List.append_cons, ← semicolon, ← split]

/-- The tokens of one semicolon. -/
theorem tokensFrom_semicolon (position : Position) :
    ∃ final, final.lexeme = .endOfInput ∧ tokensFrom ⟨[';'], position⟩ =
      .ok [⟨.mark .semicolon, ⟨position, position.advance ';'⟩⟩, final] := by
  refine ⟨⟨.endOfInput, .emptyAt (position.advance ';')⟩, rfl, ?_⟩
  rw [tokensFrom_mark position rfl rfl, tokensFrom_nil rfl]
  rfl

/-- A text and its last semicolon: either the semicolon stands in a comment, and is no token, or
it is the last token. -/
theorem tokensFrom_dropSemicolon {characters : List Char} {position : Position}
    {before : List Token} {stop : Token}
    (read : tokensFrom ⟨characters ++ [';'], position⟩ = .ok (before ++ [stop])) :
    ∃ inside final, final.lexeme = .endOfInput ∧
      tokensFrom ⟨characters, position⟩ = .ok (inside ++ [final]) ∧
      (before = inside ∨ ∃ span, before = inside ++ [⟨.mark .semicolon, span⟩]) := by
  have joined : (⟨characters ++ [';'], position⟩ : Cursor) =
      (⟨characters, position⟩ : Cursor).continuedBy [';'] := rfl
  rw [joined] at read
  obtain ⟨inside, final, shorter, finishes, comment | ⟨others, alone, whole⟩⟩ :=
    tokensFrom_of_concat separates_semicolon (by decide) (by decide) read
  · obtain ⟨last, -, whole⟩ := comment
    exact ⟨inside, final, finishes, shorter, .inl (List.append_inj' whole rfl).1⟩
  · obtain ⟨last, -, semicolon⟩ := tokensFrom_semicolon (position.advanceAll characters)
    obtain rfl := Except.ok.inj (alone.symm.trans semicolon)
    have regrouped := whole.trans (List.append_cons ..)
    exact ⟨inside, final, finishes, shorter, .inr ⟨_, (List.append_inj' regrouped rfl).1⟩⟩

/-- What is placed of a text that forms an expression are the tokens of the expression. -/
theorem FormsExpression.tokens {allowance : Nat} {text : String} {tree : Expression}
    (forms : FormsExpression allowance text tree) :
    ∃ before stop, stop.lexeme = .endOfInput ∧
      tokensFrom (.atStart (placed .value text.toList)) = .ok (before ++ [stop]) ∧
      SpellsExpression allowance before tree := by
  cases forms with
  | bare read spelled =>
    obtain ⟨stop, ended, trimmed⟩ := tokens_trimEnd read
    rcases dropSemicolon_cases (Text.trimEnd text.toList) with same | closed
    · rw [← same] at trimmed
      exact ⟨_, stop, ended, trimmed, spelled⟩
    · rw [Cursor.atStart, closed] at trimmed
      obtain ⟨inside, final, finishes, shorter, same | ⟨span, more⟩⟩ :=
        tokensFrom_dropSemicolon trimmed
      · exact ⟨inside, final, finishes, shorter, same ▸ spelled⟩
      · -- No expression holds a semicolon.
        have within := spelled.within ⟨.mark .semicolon, span⟩ (by simp [more])
        cases within
  | @closed tokens before span read split last spelled =>
    obtain ⟨stop, ended, trimmed⟩ := tokens_trimEnd read
    rw [split] at trimmed
    have stands : (Cursor.atStart (Text.trimEnd text.toList)).HasSemicolonBefore
        (Position.first.advanceAll (Text.trimEnd text.toList ++ [])) := by
      rw [List.append_nil, ← last]
      exact hasSemicolonBefore trimmed
        (List.mem_append_left _ (List.mem_append_right before List.mem_cons_self)) rfl
    obtain ⟨-, front, characters⟩ := stands.at_end
    change Text.trimEnd text.toList = front ++ [';'] at characters
    rw [placed, characters, dropSemicolon_concat]
    rw [Cursor.atStart, characters] at trimmed
    obtain ⟨inside, final, finishes, shorter, same | ⟨_, more⟩⟩ :=
      tokensFrom_dropSemicolon trimmed
    · -- The token stands at the end of the text, so it does not stand in the text before.
      have earlier : (⟨front, .first⟩ : Cursor).HasSemicolonBefore
          (Position.first.advanceAll (front ++ [';'])) := by
        rw [← characters, ← last]
        exact hasSemicolonBefore shorter
          (List.mem_append_left _ (same ▸ List.mem_append_right before List.mem_cons_self)) rfl
      cases earlier.at_end.1
    · obtain ⟨rfl, -⟩ := List.append_inj' more rfl
      exact ⟨before, final, finishes, shorter, spelled⟩

/-! ## The function around the input -/

/-- Tokens are known by their lexemes and their places. -/
theorem exists_spans {tokens : List Token} {lexemes : List Lexeme}
    (same : tokens.map Token.lexeme = lexemes) :
    ∃ spans : List Span, spans.length = lexemes.length ∧
      tokens = List.zipWith Token.mk lexemes spans := by
  refine ⟨tokens.map Token.span, by rw [← same, List.length_map, List.length_map], ?_⟩
  subst same
  induction tokens with
  | nil => rfl
  | cons token rest inductionHypothesis =>
    exact congrArg (token :: ·) inductionHypothesis

/-- A definition without parameters is a program. -/
theorem spellsProgram_of_body {allowance : Nat} {inner : List Token} {body : List Statement}
    (spelled : SpellsStatements allowance inner body) (type : Syntax.TypeName) (name : String)
    (typed named opened closed braced unbraced : Span) :
    Syntax.SpellsProgram allowance
      (⟨.keyword type.keyword, typed⟩ :: ⟨.identifier name, named⟩ ::
        ⟨.mark .openParen, opened⟩ :: ⟨.mark .closeParen, closed⟩ ::
          ⟨.mark .openBrace, braced⟩ :: (inner ++ [⟨.mark .closeBrace, unbraced⟩]))
      [.function type name [] (some body) false (typed.through braced)] := by
  have signature : Syntax.SpellsSignature type name [] typed
      (⟨.keyword type.keyword, typed⟩ :: ⟨.identifier name, named⟩ ::
        ⟨.mark .openParen, opened⟩ :: ([] ++ [⟨.mark .closeParen, closed⟩])) := .mk .none
  have item : Syntax.SpellsItem allowance
      (_ ++ ⟨.mark .openBrace, braced⟩ :: (inner ++ [⟨.mark .closeBrace, unbraced⟩]))
      (.function type name [] (some body) false (typed.through braced)) :=
    .definition signature spelled
  have program := Syntax.SpellsProgram.cons item .nil
  rw [List.append_nil] at program
  exact program

/-- The function around an expression returns it. The expression stands two levels deeper than
the statements of a function. -/
theorem spellsProgram_of_value {allowance : Nat} {entry : String}
    {opening inner closing : List Token} {tree : Expression}
    (opens : opening.map Token.lexeme = openingLexemes entry .value)
    (closes : closing.map Token.lexeme = closingLexemes .value)
    (spelled : SpellsExpression allowance inner tree) :
    ∃ returned declared, Syntax.SpellsProgram (allowance + 2) (opening ++ (inner ++ closing))
      [.function .auto entry [] (some [.leave (some tree) returned]) false declared] := by
  obtain ⟨before, count, rfl⟩ := exists_spans opens
  obtain ⟨after, countAfter, rfl⟩ := exists_spans closes
  match before, count, after, countAfter with
  | [typed, named, opened, closed, braced, returns, grouped], _, [ungrouped, ended, unbraced], _ =>
    have group : Syntax.SpellsPrimary allowance
        (⟨.mark .openParen, grouped⟩ :: (inner ++ [⟨.mark .closeParen, ungrouped⟩])) tree :=
      .group spelled
    have value : SpellsExpression (allowance + 1)
        (⟨.mark .openParen, grouped⟩ :: (inner ++ [⟨.mark .closeParen, ungrouped⟩])) tree :=
      .value (.tighter (.tighter (.tighter (.tighter (.tighter (.tighter
        (.operand (.plain group))))))))
    have body : SpellsStatements (allowance + 2) _ [.leave (some tree) (returns.through ended)] :=
      .cons (.leaveWith value) .nil
    have program :=
      spellsProgram_of_body body .auto entry typed named opened closed braced unbraced
    exact ⟨returns.through ended, typed.through braced,
      by simpa [openingLexemes, closingLexemes, Syntax.TypeName.keyword] using program⟩

/-- The function around statements executes them, and then does nothing more. -/
theorem spellsProgram_of_statements {allowance : Nat} {entry : String}
    {opening inner closing : List Token} {body : List Statement}
    (opens : opening.map Token.lexeme = openingLexemes entry .statements)
    (closes : closing.map Token.lexeme = closingLexemes .statements)
    (spelled : SpellsStatements (allowance + 1) inner body) :
    ∃ declared, Syntax.SpellsProgram (allowance + 1) (opening ++ (inner ++ closing))
      [.function .void entry [] (some (body ++ [.empty])) false declared] := by
  obtain ⟨before, count, rfl⟩ := exists_spans opens
  obtain ⟨after, countAfter, rfl⟩ := exists_spans closes
  match before, count, after, countAfter with
  | [typed, named, opened, closed, braced], _, [ended, unbraced], _ =>
    have whole : SpellsStatements (allowance + 1)
        (inner ++ ([⟨.mark .semicolon, ended⟩] ++ [])) (body ++ [.empty]) :=
      spelled.append (.cons .empty .nil)
    have program :=
      spellsProgram_of_body whole .void entry typed named opened closed braced unbraced
    exact ⟨typed.through braced,
      by simpa [openingLexemes, closingLexemes, Syntax.TypeName.keyword] using program⟩

/-- A text whose tokens before the end spell a program is read as that program. -/
theorem parseProgram_of_spelled {text : String} {tokens : List Token} {final : Token}
    {items : List Syntax.Item} (read : tokenize text = .ok (tokens ++ [final]))
    (ended : final.lexeme = .endOfInput)
    (spelled : Syntax.SpellsProgram nestingLimit tokens items) :
    Syntax.parseProgram text = .ok items := by
  have ends : Syntax.Parser.nextLexeme [final] = .endOfInput := ended
  simp only [Syntax.parseProgram, read]
  rw [Syntax.programOfTokens_eq_ok_iff, Syntax.beforeEnd_append spelled.unended ends]
  exact spelled

/-- How the places of input change when it is placed. -/
def shift (entry : String) (kind : WrapKind) : Position → Position :=
  Position.below 1 (bytesBefore entry kind)

/-- Input whose tokens are one expression is placed in a function that returns the expression,
and input whose tokens are statements in a function that executes them, with all places moved
behind the first line. -/
theorem placing_keeps_the_program (supply : NameSupply) (taken : List String) (text : String) :
    (∀ tree, FormsExpression (nestingLimit - 2) text tree →
      let wrapped := (wrap supply text.toList .value taken).1
      ∃ returned declared, Syntax.parseProgram wrapped.text =
        .ok [.function .auto wrapped.entry []
          (some [.leave (some (tree.moved (shift wrapped.entry .value))) returned])
          false declared]) ∧
    (∀ body, FormsStatements nestingLimit text body →
      let wrapped := (wrap supply text.toList .statements taken).1
      ∃ declared, Syntax.parseProgram wrapped.text =
        .ok [.function .void wrapped.entry []
          (some (Statement.allMoved (shift wrapped.entry .statements) body ++ [.empty]))
          false declared]) := by
  constructor
  · intro tree forms wrapped
    obtain ⟨before, stop, -, read, spelled⟩ := forms.tokens
    have named := isWord_entry supply text.toList .value taken
    obtain ⟨opening, closing, final, opens, closes, ended, whole⟩ :=
      tokenize_wrapperText_of_ok named read
    rw [← List.append_assoc _ closing, ← List.append_assoc opening] at whole
    obtain ⟨returned, declared, program⟩ := spellsProgram_of_value opens closes spelled.moved
    exact ⟨returned, declared, parseProgram_of_spelled whole ended program⟩
  · rintro body ⟨tokens, read, spelled⟩ wrapped
    obtain ⟨stop, -, trimmed⟩ := tokens_trimEnd read
    change tokensFrom (.atStart (placed .statements text.toList)) = _ at trimmed
    have named := isWord_entry supply text.toList .statements taken
    obtain ⟨opening, closing, final, opens, closes, ended, whole⟩ :=
      tokenize_wrapperText_of_ok named trimmed
    rw [← List.append_assoc _ closing, ← List.append_assoc opening] at whole
    obtain ⟨declared, program⟩ := spellsProgram_of_statements opens closes spelled.moved
    exact ⟨declared, parseProgram_of_spelled whole ended program⟩

/-- A call with its semicolon, and a statement with a comment behind it, are placed as they are. -/
theorem calls_and_choices_are_kept :
    let call : Span → Span → Expression := fun name whole =>
      .call "f" [.name "x" name] whole
    let called := call ⟨⟨1, 3, 2⟩, ⟨1, 4, 3⟩⟩ ⟨⟨1, 1, 0⟩, ⟨1, 5, 4⟩⟩
    let chosen : List Statement := [.choose (.name "x" ⟨⟨1, 5, 4⟩, ⟨1, 6, 5⟩⟩)
      [.evaluate (call ⟨⟨1, 10, 9⟩, ⟨1, 11, 10⟩⟩ ⟨⟨1, 8, 7⟩, ⟨1, 12, 11⟩⟩)] []]
    let value := (wrap .new "f(x); ".toList .value []).1
    let statements := (wrap .new "if (x) f(x); // ;".toList .statements []).1
    FormsExpression (nestingLimit - 2) "f(x); " called ∧
    FormsStatements nestingLimit "if (x) f(x); // ;" chosen ∧
    (∃ returned declared, Syntax.parseProgram value.text =
      .ok [.function .auto value.entry []
        (some [.leave (some (called.moved (shift value.entry .value))) returned])
        false declared]) ∧
    ∃ declared, Syntax.parseProgram statements.text =
      .ok [.function .void statements.entry []
        (some (Statement.allMoved (shift statements.entry .statements) chosen ++ [.empty]))
        false declared] := by
  intro call called chosen value statements
  have atom : ∀ {allowance : Nat} {tokens : List Token} {tree : Expression},
      Syntax.SpellsPrimary allowance tokens tree →
        SpellsExpression (allowance + 1) tokens tree := fun primary =>
    .value (.tighter (.tighter (.tighter (.tighter (.tighter (.tighter
      (.operand (.plain primary))))))))
  have calls : ∀ {allowance : Nat} (start opening stop closing : Span),
      SpellsExpression (allowance + 2) [⟨.identifier "f", start⟩, ⟨.mark .openParen, opening⟩,
        ⟨.identifier "x", stop⟩, ⟨.mark .closeParen, closing⟩]
        (call stop (start.through closing)) := fun _ _ _ _ =>
    atom (.callWith (.last (atom .name)))
  have closed : FormsExpression 126 "f(x); " called := by
    have read : (tokenize "f(x); ").toOption = some
        [⟨.identifier "f", ⟨⟨1, 1, 0⟩, ⟨1, 2, 1⟩⟩⟩, ⟨.mark .openParen, ⟨⟨1, 2, 1⟩, ⟨1, 3, 2⟩⟩⟩,
          ⟨.identifier "x", ⟨⟨1, 3, 2⟩, ⟨1, 4, 3⟩⟩⟩, ⟨.mark .closeParen, ⟨⟨1, 4, 3⟩, ⟨1, 5, 4⟩⟩⟩,
          ⟨.mark .semicolon, ⟨⟨1, 5, 4⟩, ⟨1, 6, 5⟩⟩⟩, ⟨.endOfInput, .emptyAt ⟨1, 7, 6⟩⟩] := by
      decide +kernel
    have last : (⟨1, 6, 5⟩ : Position) =
        Position.first.advanceAll (Text.trimEnd "f(x); ".toList) := by decide
    have spelled : SpellsExpression 126 _ called :=
      calls ⟨⟨1, 1, 0⟩, ⟨1, 2, 1⟩⟩ ⟨⟨1, 2, 1⟩, ⟨1, 3, 2⟩⟩ ⟨⟨1, 3, 2⟩, ⟨1, 4, 3⟩⟩
        ⟨⟨1, 4, 3⟩, ⟨1, 5, 4⟩⟩
    exact .closed (ok_of_toOption read) rfl last spelled
  have listed : FormsStatements nestingLimit "if (x) f(x); // ;" chosen := by
    have read : (tokenize "if (x) f(x); // ;").toOption = some
        [⟨.keyword .ifWord, ⟨⟨1, 1, 0⟩, ⟨1, 3, 2⟩⟩⟩, ⟨.mark .openParen, ⟨⟨1, 4, 3⟩, ⟨1, 5, 4⟩⟩⟩,
          ⟨.identifier "x", ⟨⟨1, 5, 4⟩, ⟨1, 6, 5⟩⟩⟩, ⟨.mark .closeParen, ⟨⟨1, 6, 5⟩, ⟨1, 7, 6⟩⟩⟩,
          ⟨.identifier "f", ⟨⟨1, 8, 7⟩, ⟨1, 9, 8⟩⟩⟩, ⟨.mark .openParen, ⟨⟨1, 9, 8⟩, ⟨1, 10, 9⟩⟩⟩,
          ⟨.identifier "x", ⟨⟨1, 10, 9⟩, ⟨1, 11, 10⟩⟩⟩,
          ⟨.mark .closeParen, ⟨⟨1, 11, 10⟩, ⟨1, 12, 11⟩⟩⟩,
          ⟨.mark .semicolon, ⟨⟨1, 12, 11⟩, ⟨1, 13, 12⟩⟩⟩, ⟨.endOfInput, .emptyAt ⟨1, 18, 17⟩⟩] := by
      decide +kernel
    exact ⟨_, ok_of_toOption read,
      .cons (.choose (.parentheses (atom .name)) (.evaluate (calls _ _ _ _))) .nil⟩
  exact ⟨closed, listed, (placing_keeps_the_program .new [] "f(x); ").1 called closed,
    (placing_keeps_the_program .new [] "if (x) f(x); // ;").2 chosen listed⟩

end IncrementalC.Input
