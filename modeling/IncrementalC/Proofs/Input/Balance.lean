import IncrementalC.Proofs.Input.Brackets
import IncrementalC.Proofs.Input.Enclosure
import IncrementalC.Proofs.Syntax.Unclosed
import IncrementalC.Proofs.Syntax.Unfinished
import Mathlib.Data.List.Infix

/-!
Contract: input is complete when the reader of programs wants no more of it.

A program closes the brackets it opens, so input that is withheld would be none. And a program
that is unfinished behind a closing brace has an open one, so input that closes all brackets it
opens is not unfinished when it is placed.

Owns:
- how often brackets occur in input that closes none that is not open;
- the brackets of placed input, and the two statements.

Does not own: which complete input is a program.
-/

namespace IncrementalC.Input

open Syntax (brackets bracketOf braceDepth)

/-! ## Numbers of brackets -/

/-- No prefix closes more brackets of a kind than it opens. -/
def NeverOvercloses (characters : List Char) : Prop :=
  ∀ before, before <+: characters → before.count '}' ≤ before.count '{' ∧
    before.count ']' ≤ before.count '[' ∧ before.count ')' ≤ before.count '('

/-- The brackets of each kind that are open, and by how much the character changes them. -/
theorem read?_of_counts {opened : OpenBrackets} {character : Char}
    (fits : [character].count '}' ≤ opened.braces + [character].count '{' ∧
      [character].count ']' ≤ opened.squares + [character].count '[' ∧
      [character].count ')' ≤ opened.parens + [character].count '(') :
    ∃ next, opened.read? character = some next ∧
      next.braces + [character].count '}' = opened.braces + [character].count '{' ∧
      next.squares + [character].count ']' = opened.squares + [character].count '[' ∧
      next.parens + [character].count ')' = opened.parens + [character].count '(' := by
  simp only [List.count_singleton, beq_iff_eq] at fits ⊢
  unfold OpenBrackets.read?
  split
  case h_4 | h_5 | h_6 =>
    -- A bracket that is closed is open, since the counts say so.
    refine ⟨_, if_neg ?_, ?_⟩ <;> grind
  all_goals exact ⟨_, rfl, by grind⟩

/-- If no prefix closes more than is open and it opens, every bracket that is closed is open. -/
theorem readAll?_of_counts {opened : OpenBrackets} {characters : List Char}
    (counts : ∀ before, before <+: characters →
      before.count '}' ≤ opened.braces + before.count '{' ∧
      before.count ']' ≤ opened.squares + before.count '[' ∧
      before.count ')' ≤ opened.parens + before.count '(') :
    ∃ after, opened.readAll? characters = some after := by
  induction characters generalizing opened with
  | nil => exact ⟨opened, rfl⟩
  | cons character rest inductionHypothesis =>
    obtain ⟨next, read, braces, squares, parens⟩ := read?_of_counts (counts [character] (by simp))
    rw [OpenBrackets.readAll?, read]
    refine inductionHypothesis fun before leads => ?_
    have longer := counts (character :: before) (List.cons_prefix_cons.mpr ⟨rfl, leads⟩)
    rw [← List.singleton_append] at longer
    simp only [List.count_append] at longer
    omega

/-! ## Brackets of placed input -/

/-- The brackets that the line in front of placed input leaves open. -/
def WrapKind.around : WrapKind → OpenBrackets
  | .value => ⟨1, 0, 1⟩
  | .statements => ⟨1, 0, 0⟩

theorem brackets_map_moved (move : Position → Position) (tokens : List Token) :
    brackets (tokens.map (Token.moved move)) = brackets tokens := by
  rw [brackets, List.flatMap_map]
  rfl

/-- A semicolon and the end of input are no brackets. -/
theorem brackets_of_placed {tokens before : List Token} {final : Token}
    (ends : final.lexeme = .endOfInput)
    (same : tokens = before ∨ ∃ span, tokens = before ++ [⟨.mark .semicolon, span⟩]) :
    brackets (tokens ++ [final]) = brackets before := by
  rcases same with rfl | ⟨span, rfl⟩ <;> simp [ends, bracketOf]

theorem readAll?_opening {opening : List Token} {entry : String} {kind : WrapKind}
    (opens : opening.map Token.lexeme = openingLexemes entry kind) :
    OpenBrackets.none.readAll? (brackets opening) = some kind.around := by
  rw [brackets_of_lexemes opens]
  cases kind <;> rfl

theorem readAll?_closing {closing : List Token} {kind : WrapKind} (opened : OpenBrackets)
    (closes : closing.map Token.lexeme = closingLexemes kind) :
    (opened.add kind.around).readAll? (brackets closing) = some opened := by
  rw [brackets_of_lexemes closes]
  cases kind <;>
    simp [closingLexemes, bracketOf, WrapKind.around, OpenBrackets.add, OpenBrackets.readAll?,
      OpenBrackets.read?]

section

variable {supply : NameSupply} {text : String} {kind : WrapKind} {taken : List String}

/-- The lines around placed input close what they open. -/
theorem readAll?_around (move : Position → Position) {opening before closing : List Token}
    {entry : String} {opened : OpenBrackets}
    (opens : opening.map Token.lexeme = openingLexemes entry kind)
    (closes : closing.map Token.lexeme = closingLexemes kind)
    (inside : OpenBrackets.none.readAll? (brackets before) = some opened) :
    OpenBrackets.none.readAll?
      (brackets (opening ++ (before.map (Token.moved move) ++ closing))) = some opened := by
  have around := @OpenBrackets.readAll?_add .none opened kind.around _ inside
  rw [OpenBrackets.none_add] at around
  rw [Syntax.brackets_append, Syntax.brackets_append, brackets_map_moved,
    OpenBrackets.readAll?_append, readAll?_opening opens, Option.bind_some,
    OpenBrackets.readAll?_append, around, Option.bind_some]
  exact readAll?_closing opened closes

/-- A program around input closes all brackets that the input opens. -/
theorem isComplete_of_parses {items : List Syntax.Item}
    (read : Syntax.parseProgram (wrap supply text.toList kind taken).1.text = .ok items) :
    isComplete text.toList = true := by
  obtain ⟨before, stop, opening, closing, ended, placedRead, opens, closes, spelled⟩ :=
    spelled_wrapper read
  obtain ⟨tokens, final, ends, whole, same⟩ := tokenize_of_placed ended placedRead
  refine (isComplete_of_tokens whole).mpr fun opened inside => ?_
  rw [brackets_of_placed ends same] at inside
  exact Option.some.inj ((readAll?_around _ opens closes inside).symm.trans (spelled.settles .none))

/-! ## Input that is unfinished when it is placed -/

/-- A block comment that does not end in what is placed of a text does not end in the text. -/
theorem incomplete_of_placed
    (unended : tokensFrom (.atStart (placed kind text.toList)) = .error .incomplete) :
    tokenize text = .error .incomplete := by
  obtain ⟨behind, ending, split⟩ := placed_split kind text.toList
  rw [tokenize, Cursor.atStart, split]
  refine tokensFrom_append_of_incomplete (fun character member => ?_) unended
  rcases ending.of_mem member with blank | rfl
  · exact separates_of_isBlank blank
  · exact ⟨separates_semicolon, by decide, by decide⟩

/-- Only a block comment of the input can leave a text around it without tokens, so that more
text could finish it. -/
theorem placed_of_incomplete
    (unended : tokenize (wrap supply text.toList kind taken).1.text = .error .incomplete) :
    tokensFrom (.atStart (placed kind text.toList)) = .error .incomplete := by
  have named := isWord_entry supply text.toList kind taken
  generalize entry? : (wrap supply text.toList kind taken).1.entry = entry at named
  have wrapped : (wrap supply text.toList kind taken).1.text =
      wrapperText entry kind (Text.trimEnd text.toList) := by rw [← entry?]; rfl
  rw [wrapped] at unended
  rcases inside : tokensFrom (.atStart (placed kind text.toList)) with (_ | diagnostic) | tokens
  · rfl
  · obtain ⟨opening, -, whole⟩ := tokenize_wrapperText named kind text.toList
    have moved := tokensFrom_moved (carries_below 1 (bytesBefore entry kind))
      (.atStart (placed kind text.toList))
    rw [inside] at moved
    rw [unended, tokensFrom_continuedBy_of_invalid separates_newline moved] at whole
    cases whole
  · obtain ⟨stop, -, split⟩ := exists_split inside
    rw [split] at inside
    obtain ⟨_, _, _, -, -, -, whole⟩ := tokenize_wrapperText_of_ok named inside
    cases unended.symm.trans whole

theorem exists_closeBrace {closing : List Token}
    (closes : closing.map Token.lexeme = closingLexemes kind) :
    ∃ front last, closing = front ++ [last] ∧ last.lexeme = .mark .closeBrace := by
  have split : closingLexemes kind = (closingLexemes kind).dropLast ++ [.mark .closeBrace] := by
    cases kind <;> rfl
  obtain ⟨front, behind, rfl, -, last⟩ := List.map_eq_append_iff.mp (closes.trans split)
  obtain ⟨token, rfl, brace⟩ := List.map_eq_singleton_iff.mp last
  exact ⟨front, token, rfl, brace⟩

/-- Input that closes all brackets it opens, and no other, leaves no reader wanting more. -/
theorem not_incomplete_of_isComplete (complete : isComplete text.toList = true)
    (never : NeverOvercloses (scan .code text.toList).1) :
    Syntax.parseProgram (wrap supply text.toList kind taken).1.text ≠ .error .incomplete := by
  intro missing
  have counted : ∃ after, OpenBrackets.none.readAll? (scan .code text.toList).1 = some after :=
    readAll?_of_counts fun before leads => by simpa [OpenBrackets.none] using never before leads
  cases tokenized : tokenize (wrap supply text.toList kind taken).1.text with
  | error problem =>
    rw [Syntax.parseProgram_of_error tokenized] at missing
    obtain rfl := Except.error.inj missing
    have unended := incomplete_of_placed (placed_of_incomplete tokenized)
    have leaves := scan_leavesAt (.atStart text.toList)
    rw [show tokensFrom (.atStart text.toList) = _ from unended] at leaves
    obtain ⟨after, read⟩ := counted
    have left : (scan .code text.toList).2 = .blockComment := leaves
    simp [isComplete, read, left, ScanContext.isSettled] at complete
  | ok tokens =>
    rw [Syntax.parseProgram_of_tokens tokenized] at missing
    obtain ⟨before, stop, opening, closing, ended, placedRead, opens, closes, split⟩ :=
      tokens_wrapper tokenized
    have stops := Syntax.programOfTokens_of_incomplete missing
    rw [split] at stops
    rcases stops with opened | ⟨front, last, same, plain⟩
    · obtain ⟨own, final, ends, whole, same⟩ := tokenize_of_placed ended placedRead
      obtain ⟨after, read⟩ := counted
      have standing : (scan .code text.toList).1.filter isBracket = brackets (own ++ [final]) :=
        brackets_of_tokensFrom whole
      rw [← readAll?_filter, standing] at read
      obtain rfl := (isComplete_of_tokens whole).mp complete after read
      rw [brackets_of_placed ends same] at read
      have level := Syntax.braces_of_readAll? (readAll?_around
        (shift (wrap supply text.toList kind taken).1.entry kind) opens closes read)
      have zero : (OpenBrackets.none.braces : Int) = 0 := rfl
      omega
    · obtain ⟨between, brace, rfl, closed⟩ := exists_closeBrace closes
      rw [← List.append_assoc, ← List.append_assoc] at same
      obtain rfl := List.singleton_inj.mp (List.append_inj' same rfl).2
      rw [closed] at plain
      cases plain

end

/-- Whatever function a text is placed in: if the text is not complete the function is no program,
and if it is complete and closes no bracket that is not open then the function is not
unfinished. -/
theorem completeness_agrees_with_parsing (supply : NameSupply) (text : String)
    (kind : WrapKind) (taken : List String) :
    (isComplete text.toList = false → ∀ items,
      Syntax.parseProgram (wrap supply text.toList kind taken).1.text ≠ .ok items) ∧
    (isComplete text.toList = true → NeverOvercloses (scan .code text.toList).1 →
      Syntax.parseProgram (wrap supply text.toList kind taken).1.text ≠ .error .incomplete) := by
  refine ⟨fun waits items read => ?_, not_incomplete_of_isComplete⟩
  rw [isComplete_of_parses read] at waits
  cases waits

/-- A call whose parenthesis is still open is withheld, and a block behind a comment with brackets
of its own is not. -/
theorem open_calls_wait_and_blocks_do_not :
    (isComplete "f(1".toList = false ∧ ∀ items,
      Syntax.parseProgram (wrap .new "f(1".toList .value []).1.text ≠ .ok items) ∧
    (isComplete "{ f(1); } // ((".toList = true ∧
      NeverOvercloses (scan .code "{ f(1); } // ((".toList).1 ∧
      Syntax.parseProgram (wrap .new "{ f(1); } // ((".toList .statements []).1.text ≠
        .error .incomplete) := by
  have waits : isComplete "f(1".toList = false := by decide +kernel
  have complete : isComplete "{ f(1); } // ((".toList = true := by decide +kernel
  have never : NeverOvercloses (scan .code "{ f(1); } // ((".toList).1 := by
    have each : ∀ before ∈ (scan .code "{ f(1); } // ((".toList).1.inits,
        before.count '}' ≤ before.count '{' ∧ before.count ']' ≤ before.count '[' ∧
          before.count ')' ≤ before.count '(' := by decide +kernel
    exact fun before leads => each before (List.mem_inits _ _ |>.mpr leads)
  exact ⟨⟨waits, (completeness_agrees_with_parsing .new "f(1" .value []).1 waits⟩, complete,
    never, (completeness_agrees_with_parsing .new "{ f(1); } // ((" .statements []).2
      complete never⟩

end IncrementalC.Input
