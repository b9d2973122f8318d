/-!
Contract: telling code from comments and quotations in typed input.

Owns:
- where a reader of typed input stands: in code, in a quotation, or in a comment;
- the characters of a text that stand in code, and where the text leaves the reader;
- joining input that is typed in several chunks.

A quotation starts and ends with a double quote, and a backslash inside it takes the
next character's meaning away. Quotations are no part of the language; knowing them
keeps a quoted bracket or comment mark from counting.

A line comment that is still open at the end of a chunk ends with the chunk, the way
it ends with the line at a terminal. Chunks are otherwise joined as they are.

Does not own: which input is complete.
-/

namespace IncrementalC.Input

/-- Where a reader of typed input stands. -/
inductive ScanContext where
  | code
  | quotation
  | escape
  | lineComment
  | blockComment
deriving DecidableEq, Repr

/-- The characters of a text that stand in code, and where the reader is left. The
marks that open a comment or a quotation are not code. -/
def scan : ScanContext → List Char → List Char × ScanContext
  | context, [] => ([], context)
  | .code, '/' :: '/' :: rest => scan .lineComment rest
  | .code, '/' :: '*' :: rest => scan .blockComment rest
  | .code, '"' :: rest => scan .quotation rest
  | .code, character :: rest =>
    let remaining := scan .code rest
    (character :: remaining.1, remaining.2)
  | .quotation, '\\' :: rest => scan .escape rest
  | .quotation, '"' :: rest => scan .code rest
  | .quotation, _ :: rest => scan .quotation rest
  | .escape, _ :: rest => scan .quotation rest
  | .lineComment, character :: rest =>
    if character = '\n' then scan .code rest else scan .lineComment rest
  | .blockComment, '*' :: '/' :: rest => scan .code rest
  | .blockComment, _ :: rest => scan .blockComment rest

/-! ## Chunks -/

/-- Whether a text stops inside a line comment. -/
def endsInLineComment (characters : List Char) : Bool :=
  (scan .code characters).2 = .lineComment

/-- The characters of `buffer` continued by those of `chunk`. -/
def joinCharacters (buffer chunk : List Char) : List Char :=
  if endsInLineComment buffer then buffer ++ '\n' :: chunk else buffer ++ chunk

/-- `buffer` continued by `chunk`. -/
def joinContinuation (buffer chunk : String) : String :=
  String.ofList (joinCharacters buffer.toList chunk.toList)

end IncrementalC.Input
