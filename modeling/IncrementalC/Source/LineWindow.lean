import IncrementalC.Source.Position

/-!
Contract: relating places in a generated text to the user's text inside it.

A generated text holds a number of leading lines, then the user's lines, then
closing lines. A line window knows the first two counts. A text has one line for every
line feed, and one more when characters follow the last line feed.

Owns:
- the number of lines of a text;
- the window of a user text behind leading lines;
- the map from places of the generated text to places of the user's text.

Does not own: how the generated text is made.
-/

namespace IncrementalC

namespace Text

/-- Lines of `characters`; the flag says whether the current line already holds a
character. -/
def countLinesFrom : (lineIsOpen : Bool) → List Char → Nat
  | lineIsOpen, [] => if lineIsOpen then 1 else 0
  | _, character :: rest =>
    if character = '\n' then countLinesFrom false rest + 1 else countLinesFrom true rest

/-- The number of lines of a text. -/
def lineCount (characters : List Char) : Nat := countLinesFrom false characters

end Text

/-- The user's lines inside a generated text. -/
structure LineWindow where
  /-- Generated lines before the user's first line. -/
  leadingLines : Nat
  /-- Lines that belong to the user. -/
  userLines : Nat
deriving DecidableEq, Repr

namespace LineWindow

/-- The window of a text that is the user's own. -/
def whole : LineWindow := ⟨0, 0⟩

/-- The window of `userText` behind `leadingLines` generated lines. An empty text
still occupies one line. -/
def ofText (leadingLines : Nat) (userText : List Char) : LineWindow :=
  ⟨leadingLines, max (Text.lineCount userText) 1⟩

/-- The place in the user's text that a place of the generated text stands for.
Places in the leading lines go to the user's first place, places behind the user's
last line to the start of that line; a place that is nowhere stays so. -/
def mapPosition (window : LineWindow) (position : Position) : Position :=
  if window.leadingLines = 0 ∨ position.line = 0 then
    position
  else if position.line ≤ window.leadingLines then
    .atColumn 1 1
  else if window.userLines < position.line - window.leadingLines then
    .atColumn window.userLines 1
  else
    .atColumn (position.line - window.leadingLines) position.column

/-- Maps both ends of a span. -/
def mapSpan (window : LineWindow) (span : Span) : Span :=
  ⟨window.mapPosition span.start, window.mapPosition span.stop⟩

end LineWindow

end IncrementalC
