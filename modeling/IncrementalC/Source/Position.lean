/-!
Contract: places in a source text.

Owns:
- positions (line, column, byte offset) and how reading a character moves them;
- spans between two positions and their joining;
- the written form of a place, `line:column`.

Does not own: which characters a text consists of, or how a place in generated
text relates to the text a user typed.
-/

namespace IncrementalC

/-- A place in a text. Lines and columns count from one, columns count code
points, and the offset counts UTF-8 bytes from zero. -/
structure Position where
  line : Nat
  column : Nat
  offset : Nat
deriving DecidableEq, Repr, Inhabited

namespace Position

/-- The place before the first character of a text. -/
def first : Position := ⟨1, 1, 0⟩

/-- The place of something that stands in no text. -/
def nowhere : Position := ⟨0, 0, 0⟩

/-- A place known by line and column only. -/
def atColumn (line column : Nat) : Position := ⟨line, column, 0⟩

/-- The place after reading `character`: a line feed opens the next line. -/
def advance (position : Position) (character : Char) : Position :=
  if character = '\n' then
    ⟨position.line + 1, 1, position.offset + character.utf8Size⟩
  else
    ⟨position.line, position.column + 1, position.offset + character.utf8Size⟩

/-- The place after reading all of `characters`. -/
def advanceAll (position : Position) (characters : List Char) : Position :=
  characters.foldl advance position

/-- One place is at or before another when its line, then its column, is. -/
def AtOrBefore (left right : Position) : Prop :=
  left.line < right.line ∨ (left.line = right.line ∧ left.column ≤ right.column)

instance (left right : Position) : Decidable (AtOrBefore left right) := by
  unfold AtOrBefore
  infer_instance

/-- The written form `line:column`. -/
def render (position : Position) : String :=
  toString position.line ++ ":" ++ toString position.column

@[simp] theorem advanceAll_nil (position : Position) :
    position.advanceAll [] = position := rfl

@[simp] theorem advanceAll_cons (position : Position) (head : Char) (tail : List Char) :
    position.advanceAll (head :: tail) = (position.advance head).advanceAll tail := rfl

theorem advanceAll_append (position : Position) (left right : List Char) :
    position.advanceAll (left ++ right) = (position.advanceAll left).advanceAll right := by
  simp [advanceAll, List.foldl_append]

end Position

/-- A stretch of text from one place to another. -/
structure Span where
  start : Position
  stop : Position
deriving DecidableEq, Repr, Inhabited

namespace Span

/-- The span of something that stands in no text. -/
def nowhere : Span := ⟨.nowhere, .nowhere⟩

/-- The empty span at one place. -/
def emptyAt (position : Position) : Span := ⟨position, position⟩

/-- From the start of one span to the end of another. -/
def through (first last : Span) : Span := ⟨first.start, last.stop⟩

/-- A span is written as the place at which it starts. -/
def render (span : Span) : String := span.start.render

end Span

end IncrementalC
