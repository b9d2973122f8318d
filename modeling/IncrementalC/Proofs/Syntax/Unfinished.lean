import IncrementalC.Proofs.Syntax.Continuation
import IncrementalC.Proofs.Syntax.Program
import IncrementalC.Proofs.Token.Continuation

/-!
Contract: what is reported about a text that more lines could finish.

A text that more lines make a program is a program, or it is unfinished. Two reports break
this rule, both made where the text ends: that an external variable is not supported, although
the parameters of a function may follow its name, and that nesting goes too deep.

Owns: the two reports, and that every other report holds for all texts that go on.

Does not own: what more text a session takes for the rest of one that is unfinished.
-/

namespace IncrementalC.Syntax

open Syntax.Parser

/-! ## Programs -/

/-- A program may be followed by another one. -/
theorem SpellsProgram.append {allowance : Nat} {first second : List Token}
    {items others : List Item} (before : SpellsProgram allowance first items)
    (after : SpellsProgram allowance second others) :
    SpellsProgram allowance (first ++ second) (items ++ others) := by
  induction before with
  | nil => exact after
  | cons head rest inductionHypothesis =>
    rw [List.append_assoc, List.cons_append]
    exact .cons head inductionHypothesis

section

variable {tokens more : List Token} {stop : Token}

/-- What is reported about tokens that do not stop at an external variable is reported
whatever follows them, unless it is that nesting goes too deep at their end. -/
theorem programOfTokens_append {diagnostic : Diagnostic} (unended : Unended tokens)
    (ended : stop.lexeme = .endOfInput)
    (known : ∀ name start, ¬StopsAtExternal tokens name start)
    (reported : programOfTokens (tokens ++ [stop]) = .error (.invalid diagnostic))
    (continued : more ≠ []) :
    diagnostic = SyntaxProblem.nestingTooDeep.reportAt stop.span ∨
      programOfTokens (tokens ++ more) = .error (.invalid diagnostic) := by
  have longer : (tokens ++ [stop]).length ≤ (tokens ++ more).length := by
    have := List.length_pos_iff.mpr continued
    simp only [List.length_append, List.length_cons, List.length_nil]
    omega
  have foretold := items_foretell longer _ _ longer unended ended (by simp) (by simp) known
  have read : Parser.items (tokens ++ [stop]).length (tokens ++ [stop]).length (tokens ++ [stop]) =
      .error (.invalid diagnostic) := by
    unfold programOfTokens at reported
    split at reported
    · rename_i problem read
      rw [read, Except.error.inj reported]
    · cases reported
  rw [read] at foretold
  refine foretold.imp_right fun refused => ?_
  simp only [programOfTokens, refused.2 more]

/-- An external declaration that stops at its name is refused. -/
theorem programOfTokens_of_stopsAtExternal {name : String} {start : Span}
    (stops : StopsAtExternal tokens name start) (ended : stop.lexeme = .endOfInput) :
    programOfTokens (tokens ++ [stop]) =
      .error (.invalid ((SyntaxProblem.externalVariable name).reportAt start)) := by
  obtain ⟨before, items, rest, rfl, spelled, named⟩ := stops
  have more : nextLexeme (rest ++ [stop]) ≠ .endOfInput := by
    obtain ⟨type, typed, place, rfl⟩ := named
    simp
  have refused := items_append_of_error spelled more (item_of_namesExternal named ended)
    (Nat.le_refl _) (Nat.lt_of_lt_of_le (by simp) (Nat.le_refl (before ++ (rest ++ [stop])).length))
  rw [List.append_assoc]
  simp only [programOfTokens, refused]

/-- Parameters make a function of an external declaration that stops at its name. -/
theorem programOfTokens_of_parameters {name : String} {start opening closing semicolon : Span}
    (stops : StopsAtExternal tokens name start) (ended : stop.lexeme = .endOfInput) :
    ∃ items, programOfTokens (tokens ++ [⟨.mark .openParen, opening⟩, ⟨.mark .closeParen, closing⟩,
      ⟨.mark .semicolon, semicolon⟩, stop]) = .ok items := by
  obtain ⟨before, items, _, rfl, spelled, type, typed, place, rfl⟩ := stops
  have signature : SpellsSignature type name [] typed
      (⟨.keyword type.keyword, typed⟩ :: ⟨.identifier name, place⟩ ::
        ⟨.mark .openParen, opening⟩ :: ([] ++ [⟨.mark .closeParen, closing⟩])) := .mk .none
  have external : SpellsItem nestingLimit
      (⟨.keyword .externWord, start⟩ :: (_ ++ [⟨.mark .semicolon, semicolon⟩])) _ :=
    .external signature
  have program := spelled.append (.cons external .nil)
  refine ⟨items ++ [.function type name [] none true (start.through semicolon)],
    programOfTokens_eq_ok_iff.mpr ?_⟩
  have split := beforeEnd_append program.unended (show nextLexeme [stop] = _ from ended)
  simp only [List.append_assoc, List.cons_append, List.nil_append, List.append_nil]
    at split program ⊢
  rw [split]
  exact program

end

/-! ## Texts -/

/-- What is reported is that an external declaration at the end of the text declares a
variable. -/
def ReportsExternalAtEnd (text : String) (diagnostic : Diagnostic) : Prop :=
  ∃ before stop name start, tokenize text = .ok (before ++ [stop]) ∧
    StopsAtExternal before name start ∧
    diagnostic = (SyntaxProblem.externalVariable name).reportAt start

/-- What is reported is that nesting goes too deep at the end of the text. -/
def ReportsNestingAtEnd (text : String) (diagnostic : Diagnostic) : Prop :=
  ∃ before stop, tokenize text = .ok (before ++ [stop]) ∧
    diagnostic = SyntaxProblem.nestingTooDeep.reportAt stop.span

theorem parseProgram_of_tokens {text : String} {tokens : List Token}
    (read : tokenize text = .ok tokens) : parseProgram text = programOfTokens tokens := by
  simp only [parseProgram, read]

theorem parseProgram_of_error {text : String} {problem : SourceError}
    (stopped : tokenize text = .error problem) : parseProgram text = .error problem := by
  simp only [parseProgram, stopped]

/-- All but two reports hold whatever lines follow the text, as far as those have tokens. -/
theorem parseProgram_newline {text : String} {diagnostic : Diagnostic}
    (reported : parseProgram text = .error (.invalid diagnostic)) :
    ReportsExternalAtEnd text diagnostic ∨ ReportsNestingAtEnd text diagnostic ∨
      ∀ more tokens, tokenize (text ++ "\n" ++ more) = .ok tokens →
        parseProgram (text ++ "\n" ++ more) = .error (.invalid diagnostic) := by
  cases read : tokenize text with
  | error problem =>
    rw [parseProgram_of_error read] at reported
    cases reported
    exact .inr (.inr fun more _ _ => parseProgram_of_error (tokenize_newline_of_invalid read more))
  | ok tokens =>
    rw [parseProgram_of_tokens read] at reported
    obtain ⟨before, stop, rfl, ended, unended, continued⟩ := tokenize_newline read
    by_cases known : ∃ name start, StopsAtExternal before name start
    · obtain ⟨name, start, stops⟩ := known
      rw [programOfTokens_of_stopsAtExternal stops ended] at reported
      cases reported
      exact .inl ⟨before, stop, name, start, read, stops, rfl⟩
    · simp only [not_exists] at known
      by_cases nesting : diagnostic = SyntaxProblem.nestingTooDeep.reportAt stop.span
      · exact .inr (.inl ⟨before, stop, read, nesting⟩)
      · refine .inr (.inr fun more tokens longer => ?_)
        rw [continued] at longer
        obtain ⟨others, behind, rfl⟩ := map_eq_ok_iff.mp longer
        have some : others ≠ [] := by
          rintro rfl
          exact tokensFrom_ne_nil _ behind
        rw [parseProgram_of_tokens (continued more ▸ longer)]
        exact (programOfTokens_append unended ended known reported some).resolve_left nesting

/-- What makes a function without parameters of a name. -/
theorem tokensFrom_emptyParameters (position : Position) :
    ∃ opening closing semicolon stop, stop.lexeme = .endOfInput ∧
      tokensFrom ⟨"();".toList, position⟩ = .ok [⟨.mark .openParen, opening⟩,
        ⟨.mark .closeParen, closing⟩, ⟨.mark .semicolon, semicolon⟩, stop] := by
  let inside := position.advance '('
  let behind := inside.advance ')'
  let stop := behind.advance ';'
  refine ⟨⟨position, inside⟩, ⟨inside, behind⟩, ⟨behind, stop⟩, ⟨.endOfInput, .emptyAt stop⟩, rfl,
    ?_⟩
  rw [show "();".toList = ['(', ')', ';'] from rfl, tokensFrom_mark position rfl rfl,
    tokensFrom_mark _ rfl rfl, tokensFrom_mark _ rfl rfl, tokensFrom_nil rfl]
  rfl

/-- An external declaration that stops at its name is reported, although parameters may
follow. -/
theorem reportsExternalAtEnd {text : String} {before : List Token} {stop : Token} {name : String}
    {start : Span} (read : tokenize text = .ok (before ++ [stop]))
    (stops : StopsAtExternal before name start) :
    parseProgram text =
        .error (.invalid ((SyntaxProblem.externalVariable name).reportAt start)) ∧
      ∃ items, parseProgram (text ++ "\n" ++ "();") = .ok items := by
  obtain ⟨_, _, split, ended, -, continued⟩ := tokenize_newline read
  obtain ⟨rfl, same⟩ := List.append_inj' split rfl
  obtain rfl := List.singleton_inj.mp same
  obtain ⟨opening, closing, semicolon, final, finished, parameters⟩ :=
    tokensFrom_emptyParameters (Position.first.advanceAll (text ++ "\n").toList)
  have longer := continued "();"
  rw [parameters] at longer
  obtain ⟨items, accepted⟩ := programOfTokens_of_parameters stops finished
  refine ⟨(parseProgram_of_tokens read).trans (programOfTokens_of_stopsAtExternal stops ended),
    items, (parseProgram_of_tokens longer).trans accepted⟩

/-- A text that more lines make a program is a program, or it is unfinished, unless one of two
reports is made at its end. All other reports hold whatever lines follow, and the report of an
external variable at the end never does. -/
theorem finishable_input_is_unfinished (text : String) :
    (∀ more items, parseProgram (text ++ "\n" ++ more) = .ok items →
      (∃ whole, parseProgram text = .ok whole) ∨ parseProgram text = .error .incomplete ∨
      ∃ diagnostic, parseProgram text = .error (.invalid diagnostic) ∧
        (ReportsExternalAtEnd text diagnostic ∨ ReportsNestingAtEnd text diagnostic)) ∧
    (∀ diagnostic, parseProgram text = .error (.invalid diagnostic) →
      ReportsExternalAtEnd text diagnostic ∨ ReportsNestingAtEnd text diagnostic ∨
      ∀ more tokens, tokenize (text ++ "\n" ++ more) = .ok tokens →
        parseProgram (text ++ "\n" ++ more) = .error (.invalid diagnostic)) ∧
    (∀ diagnostic, ReportsExternalAtEnd text diagnostic →
      parseProgram text = .error (.invalid diagnostic) ∧
      ∃ more items, parseProgram (text ++ "\n" ++ more) = .ok items) := by
  refine ⟨fun more items accepted => ?_, fun diagnostic => parseProgram_newline, ?_⟩
  · cases read : parseProgram text with
    | ok whole => exact .inl ⟨whole, rfl⟩
    | error problem =>
      cases problem with
      | incomplete => exact .inr (.inl rfl)
      | invalid diagnostic =>
        refine .inr (.inr ⟨diagnostic, rfl, ?_⟩)
        rcases parseProgram_newline read with external | nesting | final
        · exact .inl external
        · exact .inr nesting
        · cases tokens : tokenize (text ++ "\n" ++ more) with
          | error problem => cases (parseProgram_of_error tokens).symm.trans accepted
          | ok tokens => cases (final more _ tokens).symm.trans accepted
  · rintro diagnostic ⟨before, stop, name, start, read, stops, rfl⟩
    obtain ⟨reported, items, accepted⟩ := reportsExternalAtEnd read stops
    exact ⟨reported, _, items, accepted⟩

/-- What is reported about a text that is wrong. -/
def report? {α : Type} : Except SourceError α → Option Diagnostic
  | .error (.invalid diagnostic) => some diagnostic
  | _ => none

theorem report?_eq_some {α : Type} {outcome : Except SourceError α} {diagnostic : Diagnostic}
    (reported : report? outcome = some diagnostic) : outcome = .error (.invalid diagnostic) := by
  rcases outcome with (_ | found) | result
  · cases reported
  · exact congrArg _ (congrArg _ (Option.some.inj reported))
  · cases reported

/-- Both reports are made about texts that a second line finishes: one that stops at the name of
an external function, and one that stops in a call whose arguments would be too deep. -/
theorem names_and_calls_are_refused :
    (∃ diagnostic more items, parseProgram "extern int x" = .error (.invalid diagnostic) ∧
      ReportsExternalAtEnd "extern int x" diagnostic ∧
      parseProgram ("extern int x" ++ "\n" ++ more) = .ok items) ∧
    ∃ text diagnostic items, parseProgram text = .error (.invalid diagnostic) ∧
      ReportsNestingAtEnd text diagnostic ∧ parseProgram (text ++ "\n" ++ ");") = .ok items := by
  constructor
  · have facts : (tokenize "extern int x").toOption.map (fun tokens => tokens.map Token.lexeme) =
        some [.keyword .externWord, .keyword .intType, .identifier "x", .endOfInput] := by
      decide +kernel
    cases read : tokenize "extern int x" with
    | error problem =>
      rw [read] at facts
      cases facts
    | ok tokens =>
      rw [read] at facts
      have lexemes : tokens.map Token.lexeme = _ := Option.some.inj facts
      obtain ⟨⟨_, start⟩, behind, rfl, rfl, second⟩ := List.map_eq_cons_iff.mp lexemes
      obtain ⟨⟨_, typed⟩, behind, rfl, rfl, third⟩ := List.map_eq_cons_iff.mp second
      obtain ⟨⟨_, named⟩, behind, rfl, rfl, fourth⟩ := List.map_eq_cons_iff.mp third
      obtain ⟨stop, behind, rfl, -, rest⟩ := List.map_eq_cons_iff.mp fourth
      obtain rfl := List.map_eq_nil_iff.mp rest
      have reports : ReportsExternalAtEnd "extern int x" _ :=
        ⟨_, stop, "x", start, read, ⟨[], [], _, rfl, .nil, .int, typed, named, rfl⟩, rfl⟩
      obtain ⟨refused, more, items, accepted⟩ :=
        (finishable_input_is_unfinished "extern int x").2.2 _ reports
      exact ⟨_, more, items, refused, reports, accepted⟩
  · -- The operand of the innermost sign is as deep as it may be.
    have facts :
        (parseProgram (String.ofList
          ("int x = ".toList ++ List.replicate 127 '-' ++ "f(".toList) ++ "\n" ++ ");")).isOk = true ∧
        (report? (parseProgram (String.ofList
          ("int x = ".toList ++ List.replicate 127 '-' ++ "f(".toList)))).map Diagnostic.code =
            some .nestingTooDeep := by decide +kernel
    generalize String.ofList _ = text at facts
    obtain ⟨finished, facts⟩ := facts
    obtain ⟨diagnostic, reported, deep⟩ := Option.map_eq_some_iff.mp facts
    have refused := report?_eq_some reported
    cases accepted : parseProgram (text ++ "\n" ++ ");") with
    | error problem =>
      rw [accepted] at finished
      cases finished
    | ok items =>
      refine ⟨text, diagnostic, items, refused, ?_, accepted⟩
      rcases (finishable_input_is_unfinished text).1 _ items accepted with
        ⟨whole, read⟩ | unfinished | ⟨_, again, reports⟩
      · cases refused.symm.trans read
      · cases refused.symm.trans unfinished
      · cases refused.symm.trans again
        rcases reports with ⟨_, _, _, _, -, -, rfl⟩ | nesting
        · cases deep
        · exact nesting

end IncrementalC.Syntax
