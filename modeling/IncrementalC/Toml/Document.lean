import IncrementalC.Toml.Entries
import IncrementalC.Toml.Reader

/-!
Contract: the entries that a TOML text denotes.

Owns:
- keys, arrays and tables between braces;
- the statements of a document, and their effect in order;
- the limits on nesting and on the length of a key.

Does not own: which keys a program expects.
-/

namespace IncrementalC.Toml

/-! ## Keys -/

/-- Keys have fewer parts than this, and values fewer levels. -/
def nestingLimit : Nat := 80

/-- Whether a character may stand in a key without quotes. -/
def isKeyCharacter (character : Char) : Bool :=
  character.isAlphanum || character == '_' || character == '-'

namespace Reader

/-- Takes one part of a key. -/
def keyPart : Reader String := do
  match (← peek?) with
  | some '"' | some '\'' => lineString
  | _ =>
    let characters ← takeWhile isKeyCharacter
    if characters.isEmpty then failure else return String.ofList characters

/-- Takes the parts of a key, fewer than `allowance` behind those that were read, which
are listed last first. -/
def keyParts : (allowance : Nat) → (collected : List String) → Reader KeyPath
  | 0, _ => failure
  | allowance + 1, collected => do
    skipBlanks
    let part ← keyPart
    skipBlanks
    if (← accept '.') then keyParts allowance (part :: collected)
    else return ⟨collected.reverse, part⟩

/-- Takes a key with the blanks around it. -/
def key : Reader KeyPath := keyParts (nestingLimit - 1) []

/-! ## Values -/

/-- Whether a character may stand in a plain value. -/
def isWordCharacter (character : Char) : Bool :=
  character.isAlphanum || character == '_' || character == '+' || character == '-' ||
    character == '.' || character == ':'

/-- Takes the word of a plain value. A date and its time may have a blank between
them. -/
def word : Reader (List Char) := do
  let first ← takeWhile isWordCharacter
  match (← get) with
  | ' ' :: digit :: _ =>
    if Scalar.isDate first && digit.isDigit then
      let _ ← next
      return first ++ ' ' :: (← takeWhile isWordCharacter)
    else
      return first
  | _ => return first

/-- Takes a value that has no parts. -/
def scalar : Reader Node := do
  match (← peek?) with
  | some '"' | some '\'' => return .scalar (.text (← anyString))
  | _ =>
    match Scalar.ofWord? (← word) with
    | none => failure
    | some value => return .scalar value

/-- Takes the rest of an array whose elements are read by `element`, in at most `rounds`
elements; a comma may follow the last element. -/
def arrayRest (element : Reader Node) : (rounds : Nat) → (collected : List Node) → Reader Node
  | 0, _ => failure
  | rounds + 1, collected => do
    skipGap
    if (← accept ']') then
      return .array collected.reverse
    else
      let value ← element
      skipGap
      if (← accept ',') then
        arrayRest element rounds (value :: collected)
      else
        expect ']'
        return .array (value :: collected).reverse

/-- Takes a key and its value. -/
def pair (value : Reader Node) : Reader (KeyPath × Node) := do
  let path ← key
  expect '='
  skipBlanks
  return (path, ← value)

/-- Takes the rest of a table between braces, in at most `rounds` keys; no comma follows
the last key. -/
def tableRest (value : Reader Node) : (rounds : Nat) → Entries → Reader Node
  | 0, _ => failure
  | rounds + 1, entries => do
    let (path, inner) ← pair value
    match entries.insert path inner with
    | none => failure
    | some entries =>
      skipBlanks
      if (← accept ',') then
        tableRest value rounds entries
      else
        expect '}'
        return .table .inline entries

/-- Takes a value of at most `allowance` levels. -/
def value : (allowance : Nat) → Reader Node
  | 0 => scalar
  | allowance + 1 => do
    match (← get) with
    | '[' :: rest =>
      set rest
      arrayRest (value allowance) (rest.length + 1) []
    | '{' :: rest =>
      set rest
      skipBlanks
      if (← accept '}') then return .table .inline []
      else tableRest (value allowance) (rest.length + 1) []
    | _ => scalar

end Reader

/-! ## Statements -/

/-- The statements of a document. -/
inductive Statement where
  | pair (path : KeyPath) (value : Node)
  /-- The keys that follow belong to this table. -/
  | table (path : KeyPath)
  /-- The keys that follow belong to a new element of this list of tables. -/
  | element (path : KeyPath)

namespace Reader

/-- Takes a statement with the rest of its last line. -/
def statement : Reader Statement := do
  let read ← do
    match (← get) with
    | '[' :: '[' :: rest =>
      set rest
      let path ← key
      expect ']'
      expect ']'
      pure (Statement.element path)
    | '[' :: rest =>
      set rest
      let path ← key
      expect ']'
      pure (Statement.table path)
    | _ =>
      let (path, node) ← pair (value (nestingLimit - 1))
      pure (Statement.pair path node)
  endLine
  return read

/-- Takes all statements, of which there are at most `rounds`, behind those that were
read, which are listed last first. -/
def statements : (rounds : Nat) → (collected : List Statement) → Reader (List Statement)
  | 0, _ => failure
  | rounds + 1, collected => do
    skipGap
    if (← get).isEmpty then return collected.reverse
    else statements rounds ((← statement) :: collected)

end Reader

/-- The entries so far, and the table that the next keys belong to. -/
structure Draft where
  entries : Entries
  header : List String

namespace Draft

/-- The effect of a statement. -/
def add (draft : Draft) : Statement → Option Draft
  | .pair path value =>
    (draft.entries.insertUnder draft.header path value).map fun entries => { draft with entries }
  | .table path =>
    (draft.entries.addTable path).map fun entries => ⟨entries, path.parents ++ [path.name]⟩
  | .element path =>
    (draft.entries.addElement path).map fun entries => ⟨entries, path.parents ++ [path.name]⟩

end Draft

/-- The entries that a text denotes; a byte order mark may stand in front of it. -/
def parse? (text : String) : Option Entries :=
  let characters := match text.toList with
    | '\ufeff' :: rest => rest
    | characters => characters
  match (Reader.statements (characters.length + 1) []).run characters with
  | none => none
  | some (statements, _) => (statements.foldlM Draft.add ⟨[], []⟩).map Draft.entries

end IncrementalC.Toml
