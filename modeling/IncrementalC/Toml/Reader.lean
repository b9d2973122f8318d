import IncrementalC.Toml.Scalar

/-!
Contract: reading TOML text from the front.

Owns:
- readers, which take characters from the front of a text or fail;
- blanks, comments and line ends;
- strings in quotes.

Does not own: the values and statements of a document.
-/

namespace IncrementalC.Toml

/-- Takes what it reads from the front of a text, or fails. -/
abbrev Reader (α : Type) : Type := StateT (List Char) Option α

namespace Reader

/-! ## Single characters -/

/-- The next character, which stays. -/
def peek? : Reader (Option Char) := return (← get).head?

/-- Takes one character. -/
def next : Reader Char := do
  match (← get) with
  | [] => failure
  | character :: rest =>
    set rest
    return character

/-- Takes a character if it comes next, and says whether it did. -/
def accept (character : Char) : Reader Bool := do
  match (← get) with
  | first :: rest =>
    if first = character then
      set rest
      return true
    else
      return false
  | [] => return false

/-- Takes a character that has to come next. -/
def expect (character : Char) : Reader Unit := do
  if (← accept character) then return () else failure

/-- Takes the longest run of characters of a class. -/
def takeWhile (isMember : Char → Bool) : Reader (List Char) :=
  modifyGet fun text => (text.takeWhile isMember, text.dropWhile isMember)

/-! ## Blanks, comments and line ends -/

/-- Whether a character separates words of a line. -/
def isBlank (character : Char) : Bool := character == ' ' || character == '\t'

/-- Whether a character may stand in comments and strings: of the control characters,
the tab only. -/
def isPlain (character : Char) : Bool :=
  character == '\t' || (decide (' ' ≤ character) && character != '\x7f')

/-- Takes blanks. -/
def skipBlanks : Reader Unit := do
  let _ ← takeWhile isBlank

/-- A text without the blanks, line ends and comments at its front. -/
def withoutGap : (insideComment : Bool) → List Char → List Char
  | _, [] => []
  | _, '\n' :: rest => withoutGap false rest
  | _, '\r' :: '\n' :: rest => withoutGap false rest
  | true, character :: rest =>
    if isPlain character then withoutGap true rest else character :: rest
  | false, character :: rest =>
    if isBlank character then withoutGap false rest
    else if character = '#' then withoutGap true rest
    else character :: rest

/-- Takes blanks, line ends and comments. -/
def skipGap : Reader Unit := modify (withoutGap false)

/-- Takes a line end, if it comes next. -/
def acceptLineEnd : Reader Bool := do
  match (← get) with
  | '\n' :: rest =>
    set rest
    return true
  | '\r' :: '\n' :: rest =>
    set rest
    return true
  | _ => return false

/-- Takes the rest of a line that says nothing more. -/
def endLine : Reader Unit := do
  skipBlanks
  if (← accept '#') then
    let _ ← takeWhile isPlain
  if !(← acceptLineEnd) && !(← get).isEmpty then failure

/-! ## Strings -/

/-- A way to write strings. -/
structure StringForm where
  quote : Char
  /-- Whether the string stands in triple quotes and may span lines. -/
  spansLines : Bool
deriving DecidableEq, Repr

/-- A backslash has a meaning between double quotes only. -/
def StringForm.escapes (form : StringForm) : Bool := form.quote == '"'

/-- Takes a given number of hexadecimal digits behind those that were read. -/
def hexadecimal : (count : Nat) → (value : Nat) → Reader Nat
  | 0, value => return value
  | count + 1, value => do
    let digit := Scalar.digitValue (← next)
    if digit < 16 then hexadecimal count (value * 16 + digit) else failure

/-- Takes the code point of a character in a given number of hexadecimal digits. -/
def codePoint (count : Nat) : Reader (List Char) := do
  let value ← hexadecimal count 0
  if value.isValidChar then return [Char.ofNat value] else failure

/-- Takes what follows a backslash. A backslash before a line end takes all blanks and
line ends with it. -/
def escaped (form : StringForm) : Reader (List Char) := do
  let isLineChange := match (← get).dropWhile isBlank with
    | '\n' :: _ | '\r' :: '\n' :: _ => true
    | _ => false
  if form.spansLines && isLineChange then
    modify fun text => withoutLines text
    return []
  else
    match (← next) with
    | 'b' => return ['\x08']
    | 't' => return ['\t']
    | 'n' => return ['\n']
    | 'f' => return ['\x0c']
    | 'r' => return ['\r']
    | '"' => return ['"']
    | '\\' => return ['\\']
    | 'u' => codePoint 4
    | 'U' => codePoint 8
    | _ => failure
where
  /-- A text without the blanks and line ends at its front. -/
  withoutLines : List Char → List Char
    | [] => []
    | '\r' :: '\n' :: rest => withoutLines rest
    | character :: rest =>
      if isBlank character || character == '\n' then withoutLines rest else character :: rest

/-- Takes one piece of a string, and says which characters it stands for. Every line
end counts as a line feed. -/
def stringPiece (form : StringForm) : Reader (List Char) := do
  let isLineEnd ← if form.spansLines then acceptLineEnd else pure false
  if isLineEnd then
    return ['\n']
  else
    let character ← next
    if form.escapes && character == '\\' then escaped form
    else if isPlain character then return [character]
    else failure

/-- Takes the closing quotes of a string if they come next, and says how many quotes
before them belong to the string. Of the quotes in a row that close a string in triple
quotes, two may belong to it. -/
def closingQuotes (form : StringForm) : Reader (Option Nat) := do
  if form.spansLines then
    let run := ((← get).takeWhile (· == form.quote)).length
    if run < 3 then
      return none
    else
      modify (List.drop (min run 5))
      return some (min run 5 - 3)
  else if (← accept form.quote) then
    return some 0
  else
    return none

/-- Takes the rest of a string in at most `rounds` pieces; `collected` holds the
characters before it, last first. -/
def stringRest (form : StringForm) : (rounds : Nat) → (collected : List Char) → Reader String
  | 0, _ => failure
  | rounds + 1, collected => do
    match (← closingQuotes form) with
    | some extra => return String.ofList (List.replicate extra form.quote ++ collected).reverse
    | none => stringRest form rounds ((← stringPiece form).reverse ++ collected)

/-- Takes a string behind its opening quotes. -/
def stringBody (form : StringForm) : Reader String := do
  stringRest form ((← get).length + 1) []

/-- Takes a string on one line. -/
def lineString : Reader String := do
  let quote ← next
  if quote == '"' || quote == '\'' then stringBody ⟨quote, false⟩ else failure

/-- Takes a string in single or triple quotes. A line end right behind triple quotes
does not belong to the string. -/
def anyString : Reader String := do
  match (← get) with
  | '"' :: '"' :: '"' :: rest =>
    set rest
    let _ ← acceptLineEnd
    stringBody ⟨'"', true⟩
  | '\'' :: '\'' :: '\'' :: rest =>
    set rest
    let _ ← acceptLineEnd
    stringBody ⟨'\'', true⟩
  | _ => lineString

end Reader

end IncrementalC.Toml
