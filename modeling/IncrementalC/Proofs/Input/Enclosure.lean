import IncrementalC.Proofs.Input.Placement

/-!
Contract: input that stays in the function it is placed in, and input that leaves it.

Placed input is spelled between the braces of a function. If it closes a brace that it has not
opened, this ends the function, and what follows is declared beside it.

Owns:
- the tokens of a text and of what is placed of it;
- what a text with placed input is read as, whatever the input;
- that input which is placed as one expression stays in its function.

Does not own: what the declarations mean.
-/

namespace IncrementalC

namespace Syntax

theorem braceDepth_map_moved (move : Position → Position) (tokens : List Token) :
    braceDepth (tokens.map (Token.moved move)) = braceDepth tokens := by
  induction tokens with
  | nil => rfl
  | cons token rest inductionHypothesis =>
    rw [List.map_cons, braceDepth_cons, braceDepth_cons, inductionHypothesis]
    rfl

/-- Braces are known by their lexemes. -/
theorem enclosed_map_moved {move : Position → Position} {tokens : List Token} :
    Enclosed (tokens.map (Token.moved move)) ↔ Enclosed tokens := by
  constructor
  · rintro enclosed before after rfl
    have level := enclosed _ _ List.map_append
    rwa [braceDepth_map_moved] at level
  · intro enclosed before after split
    obtain ⟨front, behind, rfl, rfl, rfl⟩ := List.map_eq_append_iff.mp split
    rw [braceDepth_map_moved]
    exact enclosed front behind rfl

/-- Tokens that are no braces may stand around moved tokens. -/
theorem enclosed_around {front inside back : List Token} {move : Position → Position}
    (opens : ∀ token ∈ front, braceStep token.lexeme = 0)
    (closes : ∀ token ∈ back, braceStep token.lexeme = 0) :
    Enclosed (front ++ (inside.map (Token.moved move) ++ back)) ↔ Enclosed inside := by
  rw [(balanced_of_forall opens).enclosed_append_iff,
    (balanced_of_forall closes).append_enclosed_iff, enclosed_map_moved]

end Syntax

namespace Input

open Syntax (nestingLimit beforeEnd Enclosed TypeName Item Unended)

/-! ## The tokens of the input -/

/-- A text and a semicolon behind it: either the semicolon stands in a comment, and is no token,
or it is the last token. -/
theorem tokensFrom_concat_semicolon {characters : List Char} {position : Position}
    {before : List Token} {stop : Token}
    (read : tokensFrom ⟨characters, position⟩ = .ok (before ++ [stop])) :
    ∃ tokens final, final.lexeme = .endOfInput ∧
      tokensFrom ⟨characters ++ [';'], position⟩ = .ok (tokens ++ [final]) ∧
      (tokens = before ∨ ∃ span, tokens = before ++ [⟨.mark .semicolon, span⟩]) := by
  obtain ⟨same, last, split, -, comment | longer⟩ :=
    tokensFrom_concat separates_semicolon (by decide) (by decide) read
  · obtain ⟨rfl, -⟩ := List.append_inj' split rfl
    obtain ⟨final, ends, whole⟩ := comment
    exact ⟨before, final, ends, whole, .inl rfl⟩
  · obtain ⟨rfl, -⟩ := List.append_inj' split rfl
    obtain ⟨final, ends, alone⟩ := tokensFrom_semicolon (position.advanceAll characters)
    have whole := longer.trans (congrArg (Except.map _) alone)
    exact ⟨_, final, ends, whole.trans (congrArg _ (List.append_cons ..)), .inr ⟨_, rfl⟩⟩

/-- If what is placed of a text has tokens, the text has them, and then at most a semicolon. -/
theorem tokenize_of_placed {kind : WrapKind} {text : String} {before : List Token} {stop : Token}
    (ended : stop.lexeme = .endOfInput)
    (read : tokensFrom (.atStart (placed kind text.toList)) = .ok (before ++ [stop])) :
    ∃ tokens final, final.lexeme = .endOfInput ∧ tokenize text = .ok (tokens ++ [final]) ∧
      (tokens = before ∨ ∃ span, tokens = before ++ [⟨.mark .semicolon, span⟩]) := by
  have trimmed : ∃ tokens final, final.lexeme = .endOfInput ∧
      tokensFrom (.atStart (Text.trimEnd text.toList)) = .ok (tokens ++ [final]) ∧
      (tokens = before ∨ ∃ span, tokens = before ++ [⟨.mark .semicolon, span⟩]) := by
    cases kind with
    | statements => exact ⟨before, stop, ended, read, .inl rfl⟩
    | value =>
      rcases dropSemicolon_cases (Text.trimEnd text.toList) with same | closed
      · rw [← same]
        exact ⟨before, stop, ended, read, .inl rfl⟩
      · rw [closed]
        exact tokensFrom_concat_semicolon read
  obtain ⟨tokens, last, finishes, short, same⟩ := trimmed
  obtain ⟨blanks, split, allBlank⟩ := trimEnd_split text.toList
  obtain ⟨final, ends, whole⟩ := tokensFrom_append_blanks allBlank finishes short
  refine ⟨tokens, final, ends, ?_, same⟩
  rw [tokenize, Cursor.atStart, split]
  exact whole

/-- The text closes no brace that it has not opened if what is placed of it does not. -/
theorem enclosed_of_placed {tokens before : List Token} {final : Token}
    (ends : final.lexeme = .endOfInput)
    (same : tokens = before ∨ ∃ span, tokens = before ++ [⟨.mark .semicolon, span⟩]) :
    Enclosed (tokens ++ [final]) ↔ Enclosed before := by
  have flat : Syntax.Balanced [final] := .single (by rw [ends]; rfl)
  rw [flat.append_enclosed_iff]
  rcases same with rfl | ⟨span, rfl⟩
  · exact Iff.rfl
  · exact (Syntax.Balanced.single rfl).append_enclosed_iff

/-! ## What the text is read as -/

/-- The type that the function around placed input states. -/
def WrapKind.returns : WrapKind → TypeName
  | .value => .auto
  | .statements => .void

/-- Input that is placed as an expression of its own accord holds no semicolon. -/
theorem noSemicolon_of_valueKind {text : String} (value : valueKind text.toList = .value)
    {tokens : List Token} (read : tokensFrom (.atStart (placed .value text.toList)) = .ok tokens) :
    ∀ token ∈ tokens, token.lexeme ≠ .mark .semicolon := by
  intro token member semicolon
  obtain ⟨before, after, split, -⟩ := hasSemicolonBefore read member semicolon
  have contained : ';' ∈ dropSemicolon (Text.trimEnd text.toList) :=
    (congrArg (';' ∈ ·) split).mpr (List.mem_append_right before List.mem_cons_self)
  simp [valueKind, contained] at value

/-- The tokens of a text with placed input are those of the input, one line further down, between
those of the lines around it. -/
theorem tokens_wrapper {supply : NameSupply} {text : String} {kind : WrapKind}
    {taken : List String} {tokens : List Token}
    (read : tokenize (wrap supply text.toList kind taken).1.text = .ok tokens) :
    ∃ before stop opening closing, stop.lexeme = .endOfInput ∧
      tokensFrom (.atStart (placed kind text.toList)) = .ok (before ++ [stop]) ∧
      opening.map Token.lexeme = openingLexemes (wrap supply text.toList kind taken).1.entry kind ∧
      closing.map Token.lexeme = closingLexemes kind ∧
      beforeEnd tokens = opening ++ (before.map (Token.moved
        (shift (wrap supply text.toList kind taken).1.entry kind)) ++ closing) := by
  have named := isWord_entry supply text.toList kind taken
  generalize entry? : (wrap supply text.toList kind taken).1.entry = entry at named ⊢
  have wrapped : (wrap supply text.toList kind taken).1.text =
      wrapperText entry kind (Text.trimEnd text.toList) := by rw [← entry?]; rfl
  rw [wrapped] at read
  obtain ⟨inside, placedRead⟩ := ok_of_tokenize_wrapperText named read
  obtain ⟨stop, ended, split⟩ := exists_split placedRead
  rw [split] at placedRead
  obtain ⟨opening, closing, final, opens, closes, ends, whole⟩ :=
    tokenize_wrapperText_of_ok named placedRead
  obtain rfl := Except.ok.inj (read.symm.trans whole)
  have regrouped : opening ++ ((beforeEnd inside).map (Token.moved (shift entry kind)) ++
      (closing ++ [final])) =
      opening ++ ((beforeEnd inside).map (Token.moved (shift entry kind)) ++ closing) ++
        [final] := by
    simp only [List.append_assoc]
  obtain ⟨last, -, parts⟩ := exists_split whole
  exact ⟨_, stop, opening, closing, ended, placedRead, opens, closes,
    (List.append_inj' (regrouped.symm.trans parts) rfl).1.symm⟩

/-- The function around placed input is spelled by a signature, and the input between braces. -/
theorem spelled_wrapper {supply : NameSupply} {text : String} {kind : WrapKind}
    {taken : List String} {items : List Item}
    (read : Syntax.parseProgram (wrap supply text.toList kind taken).1.text = .ok items) :
    ∃ before stop opening closing, stop.lexeme = .endOfInput ∧
      tokensFrom (.atStart (placed kind text.toList)) = .ok (before ++ [stop]) ∧
      opening.map Token.lexeme = openingLexemes (wrap supply text.toList kind taken).1.entry kind ∧
      closing.map Token.lexeme = closingLexemes kind ∧
      Syntax.SpellsProgram nestingLimit (opening ++ (before.map (Token.moved
        (shift (wrap supply text.toList kind taken).1.entry kind)) ++ closing)) items := by
  cases tokenized : tokenize (wrap supply text.toList kind taken).1.text with
  | error problem =>
    rw [Syntax.parseProgram, tokenized] at read
    cases read
  | ok tokens =>
    rw [Syntax.parseProgram, tokenized] at read
    obtain ⟨before, stop, opening, closing, ended, placedRead, opens, closes, split⟩ :=
      tokens_wrapper tokenized
    have spelled := Syntax.programOfTokens_eq_ok_iff.mp read
    rw [split] at spelled
    exact ⟨before, stop, opening, closing, ended, placedRead, opens, closes, spelled⟩

/-- If the function around an expression is read, it is alone exactly if the expression closes no
brace that it has not opened. It always is if there is no semicolon before that of the function. -/
theorem SpellsProgram.around_value {entry : String} {opening before closing : List Token}
    {move : Position → Position} {items : List Item}
    (opens : opening.map Token.lexeme = openingLexemes entry .value)
    (closes : closing.map Token.lexeme = closingLexemes .value)
    (spelled : Syntax.SpellsProgram nestingLimit
      (opening ++ (before.map (Token.moved move) ++ closing)) items) :
    (Enclosed before → ∃ body span, items = [.function .auto entry [] (some body) false span]) ∧
    (items.length = 1 → Enclosed before) ∧
    ((∀ token ∈ before, token.lexeme ≠ .mark .semicolon) → items.length = 1) := by
  obtain ⟨front, count, rfl⟩ := exists_spans opens
  obtain ⟨back, countBack, rfl⟩ := exists_spans closes
  match front, count, back, countBack with
  | [typed, named, opened, closed, braced, returns, grouped], _,
      [ungrouped, semicolon, unbraced], _ =>
    let inside := ⟨.mark .openParen, grouped⟩ ::
      (before.map (Token.moved move) ++ [⟨.mark .closeParen, ungrouped⟩])
    have program : Syntax.SpellsProgram nestingLimit
        (⟨.keyword TypeName.auto.keyword, typed⟩ :: ⟨.identifier entry, named⟩ ::
          ⟨.mark .openParen, opened⟩ :: ⟨.mark .closeParen, closed⟩ ::
            ⟨.mark .openBrace, braced⟩ :: (⟨.keyword .returnWord, returns⟩ ::
              (inside ++ [⟨.mark .semicolon, semicolon⟩]) ++ [⟨.mark .closeBrace, unbraced⟩]))
        items := by
      simpa [inside, openingLexemes, closingLexemes, TypeName.keyword] using spelled
    have around : Enclosed ([⟨.keyword .returnWord, returns⟩, ⟨.mark .openParen, grouped⟩] ++
        (before.map (Token.moved move) ++
          [⟨.mark .closeParen, ungrouped⟩, ⟨.mark .semicolon, semicolon⟩])) ↔ Enclosed before :=
      Syntax.enclosed_around (by simp [Syntax.braceStep]) (by simp [Syntax.braceStep])
    have regrouped : ⟨.keyword .returnWord, returns⟩ ::
        (inside ++ [⟨.mark .semicolon, semicolon⟩]) =
        [⟨.keyword .returnWord, returns⟩, ⟨.mark .openParen, grouped⟩] ++
          (before.map (Token.moved move) ++
            [⟨.mark .closeParen, ungrouped⟩, ⟨.mark .semicolon, semicolon⟩]) := by
      simp [inside]
    obtain ⟨one, enclosed⟩ := program.single_iff
    rw [regrouped, around] at one enclosed
    refine ⟨fun stays => (one stays).imp fun body only => ⟨_, only⟩, enclosed, fun plain => ?_⟩
    refine program.length_of_return ?_
    simp only [inside, List.mem_cons, List.mem_append, List.mem_map, List.not_mem_nil, or_false]
    rintro token (rfl | ⟨original, member, rfl⟩ | rfl)
    · simp
    · exact plain original member
    · simp

/-- If the function around statements is read, it is alone exactly if the statements close no
brace that they have not opened. -/
theorem SpellsProgram.around_statements {entry : String} {opening before closing : List Token}
    {move : Position → Position} {items : List Item}
    (opens : opening.map Token.lexeme = openingLexemes entry .statements)
    (closes : closing.map Token.lexeme = closingLexemes .statements)
    (spelled : Syntax.SpellsProgram nestingLimit
      (opening ++ (before.map (Token.moved move) ++ closing)) items) :
    (Enclosed before → ∃ body span, items = [.function .void entry [] (some body) false span]) ∧
    (items.length = 1 → Enclosed before) := by
  obtain ⟨front, count, rfl⟩ := exists_spans opens
  obtain ⟨back, countBack, rfl⟩ := exists_spans closes
  match front, count, back, countBack with
  | [typed, named, opened, closed, braced], _, [semicolon, unbraced], _ =>
    let inside := before.map (Token.moved move) ++ [⟨.mark .semicolon, semicolon⟩]
    have program : Syntax.SpellsProgram nestingLimit
        (⟨.keyword TypeName.void.keyword, typed⟩ :: ⟨.identifier entry, named⟩ ::
          ⟨.mark .openParen, opened⟩ :: ⟨.mark .closeParen, closed⟩ ::
            ⟨.mark .openBrace, braced⟩ :: (inside ++ [⟨.mark .closeBrace, unbraced⟩])) items := by
      simpa [inside, openingLexemes, closingLexemes, TypeName.keyword] using spelled
    have around : Enclosed ([] ++ inside) ↔ Enclosed before :=
      Syntax.enclosed_around (by simp) (by simp [Syntax.braceStep])
    rw [List.nil_append] at around
    obtain ⟨one, enclosed⟩ := program.single_iff
    rw [around] at one enclosed
    exact ⟨fun stays => (one stays).imp fun body only => ⟨_, only⟩, enclosed⟩

/-- Placed input that is read is a definition and what follows it. There is only the definition
exactly if the input closes no brace that it has not opened. -/
theorem parseProgram_wrap {supply : NameSupply} {text : String} {kind : WrapKind}
    {taken : List String} {items : List Item}
    (read : Syntax.parseProgram (wrap supply text.toList kind taken).1.text = .ok items) :
    ∃ tokens, tokenize text = .ok tokens ∧
      (Enclosed tokens → ∃ body span, items = [.function kind.returns
        (wrap supply text.toList kind taken).1.entry [] (some body) false span]) ∧
      (items.length = 1 → Enclosed tokens) ∧
      (kind = .value → valueKind text.toList = .value → Enclosed tokens) := by
  obtain ⟨before, stop, opening, closing, ended, placedRead, opens, closes, spelled⟩ :=
    spelled_wrapper read
  obtain ⟨tokens, final, ends, whole, same⟩ := tokenize_of_placed ended placedRead
  refine ⟨tokens ++ [final], whole, ?_⟩
  rw [enclosed_of_placed ends same]
  cases kind with
  | value =>
    obtain ⟨alone, enclosed, bare⟩ := SpellsProgram.around_value opens closes spelled
    refine ⟨alone, enclosed, fun _ value => enclosed (bare fun token member => ?_)⟩
    exact noSemicolon_of_valueKind value placedRead token (List.mem_append_left _ member)
  | statements =>
    obtain ⟨alone, enclosed⟩ := SpellsProgram.around_statements opens closes spelled
    exact ⟨alone, enclosed, fun value => by cases value⟩

end Input

end IncrementalC
