import IncrementalC.Diagnostic
import IncrementalC.Text.Blank
import IncrementalC.Token.Basic

/-!
Contract: grouping the characters of a text into tokens.

Owns:
- trivia, that is white space and comments, and how much of it starts a text;
- the longest lexeme at the front of a text, as a number of characters;
- the tokens of a whole text, the last of which is the end of input.

A text that stops inside a block comment is unfinished, not wrong.

Does not own: which sequences of tokens make a program.
-/

namespace IncrementalC

/-! ## Trivia -/

/-- Where a reader of trivia stands. -/
inductive TriviaContext where
  | code
  | lineComment
  | blockComment
deriving DecidableEq, Repr

/-- The number of characters of trivia at the front of a text, read in `context`;
`none` when a block comment does not end. A line comment takes the line feed that
ends it. -/
def triviaLength? : TriviaContext → List Char → Option Nat
  | .code, [] => some 0
  | .code, '/' :: '/' :: rest => (triviaLength? .lineComment rest).map (· + 2)
  | .code, '/' :: '*' :: rest => (triviaLength? .blockComment rest).map (· + 2)
  | .code, character :: rest =>
    if Text.isBlank character then (triviaLength? .code rest).map (· + 1) else some 0
  | .lineComment, [] => some 0
  | .lineComment, character :: rest =>
    if character = '\n' then (triviaLength? .code rest).map (· + 1)
    else (triviaLength? .lineComment rest).map (· + 1)
  | .blockComment, [] => none
  | .blockComment, '*' :: '/' :: rest => (triviaLength? .code rest).map (· + 2)
  | .blockComment, _ :: rest => (triviaLength? .blockComment rest).map (· + 1)

/-! ## Lexemes -/

/-- What can be wrong with the characters at the front of a text. -/
inductive LexicalProblem where
  | unexpectedCharacter (character : Char)
  | literalOutOfRange (digits : List Char)
deriving DecidableEq, Repr

namespace LexicalProblem

/-- The kind of report for a problem. -/
def code : LexicalProblem → DiagnosticCode
  | .unexpectedCharacter _ => .invalidCharacter
  | .literalOutOfRange _ => .invalidLiteral

/-- The wording of a problem. -/
def message : LexicalProblem → String
  | .unexpectedCharacter character =>
    "unexpected character `" ++ String.singleton character ++ "`"
  | .literalOutOfRange digits =>
    "integer literal `" ++ String.ofList digits ++ "` is out of range"

end LexicalProblem

/-- Whether a character can start a name. -/
def isWordStart (character : Char) : Bool := character.isAlpha || character == '_'

/-- Whether a character can continue a name. -/
def isWordPart (character : Char) : Bool := character.isAlphanum || character == '_'

/-- The number that decimal digits denote. -/
def decimalValue (digits : List Char) : Nat :=
  digits.foldl (fun value digit => value * 10 + (digit.toNat - '0'.toNat)) 0

/-- One more than the largest integer literal. -/
def literalLimit : Nat := 0x8000000000000000

/-- A name, unless the word is reserved. -/
def Lexeme.ofWord (word : List Char) : Lexeme :=
  match Keyword.ofSpelling? (String.ofList word) with
  | some reserved => .keyword reserved
  | none => .identifier (String.ofList word)

/-- The longest lexeme that starts with `first`, or what is wrong with it, and the
number of characters of `rest` that belong to it as well. -/
def readLexeme (first : Char) (rest : List Char) : Except LexicalProblem Lexeme × Nat :=
  let wrong := (.error (.unexpectedCharacter first), 0)
  let single := fun mark : Mark => (.ok (.mark mark), 0)
  let withNext := fun (next : Char) (double : Mark) (otherwise : Except LexicalProblem Lexeme × Nat) =>
    if rest.head? = some next then (.ok (.mark double), 1) else otherwise
  match first with
  | '+' => single .plus
  | '-' => single .minus
  | '*' => single .star
  | '/' => single .slash
  | '%' => single .percent
  | '(' => single .openParen
  | ')' => single .closeParen
  | '{' => single .openBrace
  | '}' => single .closeBrace
  | ',' => single .comma
  | ';' => single .semicolon
  | '=' => withNext '=' .equal (single .assign)
  | '!' => withNext '=' .notEqual (single .bang)
  | '<' => withNext '=' .lessEqual (single .less)
  | '>' => withNext '=' .greaterEqual (single .greater)
  | '&' => withNext '&' .andAnd wrong
  | '|' => withNext '|' .orOr wrong
  | _ =>
    if first.isDigit then
      let more := rest.takeWhile Char.isDigit
      let digits := first :: more
      let value := decimalValue digits
      (if value < literalLimit then .ok (.integer (Int64.ofNat value))
        else .error (.literalOutOfRange digits), more.length)
    else if isWordStart first then
      let more := rest.takeWhile isWordPart
      (.ok (.ofWord (first :: more)), more.length)
    else
      wrong

/-! ## Whole texts -/

/-- A place in a text together with the characters that follow it. -/
structure Cursor where
  rest : List Char
  position : Position
deriving DecidableEq, Repr

namespace Cursor

/-- The cursor at the start of a text. -/
def atStart (characters : List Char) : Cursor := ⟨characters, .first⟩

/-- The cursor after reading `count` characters. -/
def advance (cursor : Cursor) (count : Nat) : Cursor :=
  ⟨cursor.rest.drop count, cursor.position.advanceAll (cursor.rest.take count)⟩

theorem length_rest_advance (cursor : Cursor) (count : Nat) :
    (cursor.advance count).rest.length = cursor.rest.length - count := by
  simp [advance]

end Cursor

/-- Why a text has no tokens or no tree. -/
inductive SourceError where
  /-- The text stops inside something that more text could finish. -/
  | incomplete
  /-- No further text can repair it. -/
  | invalid (diagnostic : Diagnostic)
deriving DecidableEq, Repr

/-- The tokens from `cursor` on. Each token but the last takes a character. -/
def tokensFrom (cursor : Cursor) : Except SourceError (List Token) :=
  match triviaLength? .code cursor.rest with
  | none => .error .incomplete
  | some skipped =>
    let start := cursor.advance skipped
    match restEq : start.rest with
    | [] => .ok [⟨.endOfInput, .emptyAt start.position⟩]
    | first :: rest =>
      let outcome := readLexeme first rest
      let next := start.advance (outcome.2 + 1)
      let span : Span := ⟨start.position, next.position⟩
      match outcome.1 with
      | .error problem => .error (.invalid ⟨problem.code, problem.message, span⟩)
      | .ok lexeme =>
        have shorter : next.rest.length < cursor.rest.length := by
          have startLe := cursor.length_rest_advance skipped
          have nextLe := start.length_rest_advance (outcome.2 + 1)
          have startPos : 0 < start.rest.length := by simp [restEq]
          simp only [start, next] at *
          omega
        (tokensFrom next).map (⟨lexeme, span⟩ :: ·)
termination_by cursor.rest.length

/-- The tokens of a text, or why it has none. -/
def tokenize (text : String) : Except SourceError (List Token) :=
  tokensFrom (.atStart text.toList)

end IncrementalC
