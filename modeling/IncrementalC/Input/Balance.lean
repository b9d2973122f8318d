import IncrementalC.Input.Scan

/-!
Contract: whether typed input is lexically complete.

Input is complete when its brackets balance and it stops in no quotation and no
block comment. A closing bracket without an opening one makes it complete as well:
no further text can repair it, and the reader of programs has to report it.

Owns: the count of open brackets and the verdict.

Does not own: whether complete input is a program.
-/

namespace IncrementalC.Input

/-- How many brackets of each kind are open. -/
structure OpenBrackets where
  braces : Nat
  squares : Nat
  parens : Nat
deriving DecidableEq, Repr

namespace OpenBrackets

def none : OpenBrackets := ⟨0, 0, 0⟩

/-- The brackets open after one more character; nothing when it closes a bracket
that is not open. -/
def read? (opened : OpenBrackets) (character : Char) : Option OpenBrackets :=
  match character with
  | '{' => some { opened with braces := opened.braces + 1 }
  | '[' => some { opened with squares := opened.squares + 1 }
  | '(' => some { opened with parens := opened.parens + 1 }
  | '}' => if opened.braces = 0 then .none else some { opened with braces := opened.braces - 1 }
  | ']' => if opened.squares = 0 then .none else some { opened with squares := opened.squares - 1 }
  | ')' => if opened.parens = 0 then .none else some { opened with parens := opened.parens - 1 }
  | _ => some opened

/-- The brackets open after all of `characters`; nothing when one of them closes a
bracket that is not open. -/
def readAll? : OpenBrackets → List Char → Option OpenBrackets
  | opened, [] => some opened
  | opened, character :: rest =>
    match opened.read? character with
    | .none => .none
    | some next => readAll? next rest

end OpenBrackets

/-- Whether the reader has left every quotation and block comment. -/
def ScanContext.isSettled : ScanContext → Bool
  | .code | .lineComment => true
  | .quotation | .escape | .blockComment => false

/-- Whether input is complete. -/
def isComplete (characters : List Char) : Bool :=
  let scanned := scan .code characters
  match OpenBrackets.none.readAll? scanned.1 with
  | none => true
  | some opened => decide (opened = .none) && scanned.2.isSettled

end IncrementalC.Input
