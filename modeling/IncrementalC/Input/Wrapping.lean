import IncrementalC.Input.GeneratedName
import IncrementalC.Source.LineWindow
import IncrementalC.Token.Lexer

/-!
Contract: running statements and expressions that stand outside any function.

Only declarations may stand at top level. Other input is placed in the body of a
function made up for it, which is then compiled and called.

Owns:
- which input needs such a function, and whether it yields a value;
- the text of the function and the window of the user's lines in it.

Does not own: whether input is complete, or running the function.
-/

namespace IncrementalC.Input

/-- How wrapped input is used. -/
inductive WrapKind where
  /-- The input is one expression, whose value is returned. -/
  | value
  /-- The input is a sequence of statements. -/
  | statements
deriving DecidableEq, Repr

/-- The words that start a declaration. -/
def declarationWords : List Keyword := [.intType, .voidType, .autoType, .externWord]

/-- The words that start a statement and no expression. -/
def statementWords : List Keyword := [.ifWord, .whileWord, .returnWord, .elseWord]

/-- What stands behind the first end of a block comment; nothing if there is none. -/
def behindBlockComment : List Char → List Char
  | [] => []
  | '*' :: '/' :: rest => rest
  | _ :: rest => behindBlockComment rest

theorem length_behindBlockComment_le (characters : List Char) :
    (behindBlockComment characters).length ≤ characters.length := by
  fun_induction behindBlockComment characters with
  | case1 => exact Nat.le_refl _
  | case2 rest => exact Nat.le_add_right rest.length 2
  | case3 head rest stays inductionHypothesis => exact Nat.le_succ_of_le inductionHypothesis

theorem length_lt_of_trimStart {characters rest : List Char} {first second : Char}
    (trimmed : Text.trimStart characters = first :: second :: rest) :
    rest.length < characters.length := by
  have shorter := (List.dropWhile_sublist Text.isBlank (l := characters)).length_le
  rw [← Text.trimStart, trimmed, List.length_cons, List.length_cons] at shorter
  omega

/-- A text without the white space and the comments it starts with; nothing is left of a
comment that does not end. A line comment is cut off in front of its line break. -/
def dropTrivia (characters : List Char) : List Char :=
  match trimmed : Text.trimStart characters with
  | '/' :: '/' :: rest =>
    have : (rest.dropWhile (· != '\n')).length < characters.length :=
      Nat.lt_of_le_of_lt (List.dropWhile_sublist _).length_le (length_lt_of_trimStart trimmed)
    dropTrivia (rest.dropWhile (· != '\n'))
  | '/' :: '*' :: rest =>
    have : (behindBlockComment rest).length < characters.length :=
      Nat.lt_of_le_of_lt (length_behindBlockComment_le rest) (length_lt_of_trimStart trimmed)
    dropTrivia (behindBlockComment rest)
  | rest => rest
termination_by characters.length

/-- The letters, digits and underscores that a text starts with behind its trivia. -/
def firstWord (characters : List Char) : List Char :=
  (dropTrivia characters).takeWhile isWordPart

/-- Whether `word` is one of `keywords`. -/
def isOneOf (keywords : List Keyword) (word : List Char) : Bool :=
  keywords.any fun keyword => keyword.spelling.toList == word

/-- Whether input is something other than a declaration. Blank input is not. -/
def needsWrapping (characters : List Char) : Bool :=
  if (firstWord characters).isEmpty then !(dropTrivia characters).isEmpty
  else !isOneOf declarationWords (firstWord characters)

/-- A text without one semicolon at its end. -/
def dropSemicolon (characters : List Char) : List Char :=
  if characters.getLast? = some ';' then characters.dropLast else characters

/-- The use that input calls for: anything with the structure of statements runs as
statements. -/
def valueKind (characters : List Char) : WrapKind :=
  let body := dropSemicolon (Text.trimEnd characters)
  if isOneOf statementWords (firstWord body) || body.contains ';' || body.contains '{' then
    .statements
  else
    .value

/-- Input inside the function made up for it. -/
structure WrappedInput where
  /-- The text to compile. -/
  text : String
  /-- The name of the function. -/
  entry : String
  /-- The user's lines in the text. -/
  window : LineWindow
deriving DecidableEq, Repr

/-- The text of the function called `entry` around `body`. The user's first line is
always the second line of the text, and a trailing line comment ends before the
closing line. -/
def wrapperText (entry : String) (kind : WrapKind) (body : List Char) : String :=
  match kind with
  | .value =>
    "auto " ++ entry ++ "() \x7b return (\n" ++ String.ofList (dropSemicolon body) ++ "\n); \x7d"
  | .statements =>
    "void " ++ entry ++ "() \x7b\n" ++ String.ofList body ++ "\n;\x7d"

/-- Places input in a function whose name is none of `taken`. -/
def wrap (supply : NameSupply) (input : List Char) (kind : WrapKind) (taken : List String) :
    WrappedInput × NameSupply :=
  let reserved := supply.reserveFresh taken
  let body := Text.trimEnd input
  (⟨wrapperText reserved.1 kind body, reserved.1, .ofText 1 body⟩, reserved.2)

end IncrementalC.Input
