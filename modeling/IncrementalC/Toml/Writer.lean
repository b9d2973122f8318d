/-!
Contract: writing values as TOML text.

Owns:
- the choice of quotes for a string: double quotes if nothing needs a backslash, else
  single quotes, else triple quotes of either kind, else double quotes with escapes;
- arrays of strings, on one line or on many.

Does not own: which keys are written.
-/

namespace IncrementalC.Toml

namespace Writer

/-! ## What a string contains -/

/-- Whether a character has to be written as an escape wherever it stands. -/
def needsEscape (character : Char) : Bool :=
  (decide (character < ' ') && character != '\t' && character != '\n') || character == '\x7f'

/-- The length of the longest run of a character, behind a run of `current`. -/
def longestRun (character : Char) : (current : Nat) → List Char → Nat
  | current, [] => current
  | current, first :: rest =>
    if first = character then longestRun character (current + 1) rest
    else max current (longestRun character 0 rest)

/-! ## Escapes -/

/-- The last `count` hexadecimal digits of a number. -/
def hexadecimal (count value : Nat) : List Char :=
  (List.range count).reverse.map fun place =>
    (Nat.digitChar (value / Nat.pow 16 place % 16)).toUpper

/-- How a character is written between double quotes. -/
def escape (spansLines : Bool) (character : Char) : List Char :=
  if character = '\x08' then ['\\', 'b']
  else if character = '\t' then ['\\', 't']
  else if character = '\n' then (if spansLines then ['\n'] else ['\\', 'n'])
  else if character = '\x0c' then ['\\', 'f']
  else if character = '\r' then ['\\', 'r']
  else if character = '\\' then ['\\', '\\']
  else if needsEscape character then '\\' :: 'u' :: hexadecimal 4 character.toNat
  else [character]

/-- Characters as they are written between double quotes, behind `run` quotes. Between
triple quotes up to two quotes in a row stand for themselves. -/
def escapeAll (spansLines : Bool) : (run : Nat) → List Char → List Char
  | _, [] => []
  | run, '"' :: rest =>
    if spansLines && decide (run < 2) then '"' :: escapeAll spansLines (run + 1) rest
    else '\\' :: '"' :: escapeAll spansLines 0 rest
  | _, character :: rest => escape spansLines character ++ escapeAll spansLines 0 rest

/-! ## Strings -/

/-- A string as it is written. -/
def string (content : String) : String :=
  let characters := content.toList
  let hasEscapes := characters.any needsEscape
  let hasBackslash := characters.contains '\\'
  let hasLineFeed := characters.contains '\n'
  let doubleQuotes := longestRun '"' 0 characters
  let singleQuotes := longestRun '\'' 0 characters
  let lead := if hasLineFeed then "\n" else ""
  let escaped := String.ofList (escapeAll false 0 characters)
  let escapedLines := lead ++ String.ofList (escapeAll true 0 characters)
  if !hasEscapes && !hasBackslash && doubleQuotes == 0 && !hasLineFeed then
    "\"" ++ escaped ++ "\""
  else if !hasEscapes && singleQuotes == 0 && !hasLineFeed then
    "'" ++ content ++ "'"
  else if !hasEscapes && !hasBackslash && decide (doubleQuotes ≤ 2) then
    "\"\"\"" ++ escapedLines ++ "\"\"\""
  else if !hasEscapes && decide (singleQuotes ≤ 2) then
    "'''" ++ lead ++ content ++ "'''"
  else if hasLineFeed then
    "\"\"\"" ++ escapedLines ++ "\"\"\""
  else
    "\"" ++ escaped ++ "\""

/-! ## Lines -/

/-- A boolean as it is written. -/
def boolean (value : Bool) : String := if value then "true" else "false"

/-- An array of strings as it is written: more than one string stand on a line each. -/
def strings : List String → String
  | [] => "[]"
  | [content] => "[" ++ string content ++ "]"
  | contents =>
    "[\n" ++ String.join (contents.map fun content => "    " ++ string content ++ ",\n") ++ "]"

/-- A key without quotes and its value on a line. -/
def pair (key value : String) : String := key ++ " = " ++ value ++ "\n"

end Writer

end IncrementalC.Toml
