import Mathlib.Tactic.SplitIfs
import IncrementalC.Source.LineWindow
import IncrementalC.Text.Blank

/-!
Contract: places of a generated text that are mapped to places of the user's text.

The map keeps the order of places but for one seam. Places behind the user's last line go to the
start of that line, in front of all places of the line itself.

Owns:
- the number of lines of a text without white space at its end;
- the lines that the map leads to, and which places in order it maps to places that are not.

Does not own: which places a generated text has.
-/

namespace IncrementalC

/-! ## Lines -/

namespace Text

theorem countLinesFrom_of_unended {characters : List Char} (nonempty : characters ≠ [])
    (unended : characters.getLast? ≠ some '\n') (lineIsOpen : Bool) :
    countLinesFrom lineIsOpen characters = characters.count '\n' + 1 := by
  induction characters generalizing lineIsOpen with
  | nil => exact absurd rfl nonempty
  | cons character rest inductionHypothesis =>
    rw [countLinesFrom, List.count_cons]
    by_cases last : rest = []
    · subst last
      have other : character ≠ '\n' := fun same => unended (by rw [same]; rfl)
      simp [other, countLinesFrom]
    · rw [List.getLast?_cons_of_ne_nil last] at unended
      rw [inductionHypothesis last unended, inductionHypothesis last unended]
      split <;> simp [*]

theorem getLast?_trimEnd_ne (characters : List Char) :
    (trimEnd characters).getLast? ≠ some '\n' := by
  intro last
  rw [trimEnd, List.getLast?_reverse] at last
  have solid := List.head?_dropWhile_not isBlank characters.reverse
  rw [last] at solid
  exact absurd solid (by decide)

/-- A text without white space at its end has a line for the first character, if there is one, and
one for every line break. -/
theorem max_lineCount_trimEnd (characters : List Char) :
    max (lineCount (trimEnd characters)) 1 = 1 + (trimEnd characters).count '\n' := by
  by_cases empty : trimEnd characters = []
  · rw [empty]
    rfl
  · rw [lineCount, countLinesFrom_of_unended empty (getLast?_trimEnd_ne characters), Nat.add_comm]
    exact Nat.max_eq_left (Nat.le_add_right 1 _)

end Text

/-! ## The map -/

namespace Position

@[simp] theorem line_atColumn (line column : Nat) : (atColumn line column).line = line := rfl

@[simp] theorem column_atColumn (line column : Nat) : (atColumn line column).column = column := rfl

end Position

namespace LineWindow

variable {window : LineWindow} {position earlier later : Position}

/-- A place of a user's line goes to the line and column that it has there. -/
theorem mapPosition_of_user (generated : window.leadingLines ≠ 0)
    (behind : window.leadingLines < position.line)
    (within : position.line ≤ window.leadingLines + window.userLines) :
    window.mapPosition position =
      .atColumn (position.line - window.leadingLines) position.column := by
  rw [mapPosition, if_neg (by omega), if_neg (by omega), if_neg (by omega)]

/-- Every place of a generated text goes to one of the user's lines. -/
theorem line_mapPosition (generated : window.leadingLines ≠ 0) (lines : 0 < window.userLines)
    (inText : position.line ≠ 0) :
    1 ≤ (window.mapPosition position).line ∧
      (window.mapPosition position).line ≤ window.userLines := by
  unfold mapPosition Position.atColumn
  grind

/-! ## Order -/

/-- The ways in which places in order are mapped to places that are not. -/
inductive Swaps (window : LineWindow) (earlier later : Position) : Prop where
  /-- The later place stands behind the user's last line, and the earlier one in that line, behind
  its first column. -/
  | closing (generated : window.leadingLines ≠ 0) (lines : 0 < window.userLines)
      (last : earlier.line = window.leadingLines + window.userLines)
      (inside : 1 < earlier.column)
      (behind : window.leadingLines + window.userLines < later.line)
  /-- The earlier place stands in a leading line, and the later one in front of the first column of
  the user's first line, where no text has a place. -/
  | columnless (lines : 0 < window.userLines)
      (leading : 0 < earlier.line ∧ earlier.line ≤ window.leadingLines)
      (first : later.line = window.leadingLines + 1) (column : later.column = 0)
  /-- The window has no line of the user, which the window of no text has. -/
  | lineless (generated : window.leadingLines ≠ 0) (lines : window.userLines = 0)
      (leading : earlier.line ≤ window.leadingLines)
      (further : 0 < earlier.line ∨ 1 < earlier.column)
      (behind : window.leadingLines < later.line)

theorem swaps_iff (ordered : earlier.AtOrBefore later) :
    ¬ (window.mapPosition earlier).AtOrBefore (window.mapPosition later) ↔
      window.Swaps earlier later := by
  constructor
  · intro inverted
    have generated : window.leadingLines ≠ 0 := by
      intro none
      exact inverted (by rwa [mapPosition, mapPosition, if_pos (.inl none), if_pos (.inl none)])
    have ways :
        (0 < window.userLines ∧ earlier.line = window.leadingLines + window.userLines ∧
          1 < earlier.column ∧ window.leadingLines + window.userLines < later.line) ∨
        (0 < window.userLines ∧ 0 < earlier.line ∧ earlier.line ≤ window.leadingLines ∧
          later.line = window.leadingLines + 1 ∧ later.column = 0) ∨
        (window.userLines = 0 ∧ earlier.line ≤ window.leadingLines ∧
          (0 < earlier.line ∨ 1 < earlier.column) ∧ window.leadingLines < later.line) := by
      unfold Position.AtOrBefore at ordered inverted
      unfold mapPosition at inverted
      split_ifs at inverted <;> grind [Position.line_atColumn, Position.column_atColumn]
    rcases ways with ⟨lines, last, inside, behind⟩ | ⟨lines, some, leading, first, column⟩ |
      ⟨lines, leading, further, behind⟩
    · exact .closing generated lines last inside behind
    · exact .columnless lines ⟨some, leading⟩ first column
    · exact .lineless generated lines leading further behind
  · intro swaps
    simp only [mapPosition, Position.AtOrBefore, Position.atColumn]
    cases swaps <;> grind

/-- Between places of texts only the closing lines matter. -/
theorem Swaps.iff_closing (generated : window.leadingLines ≠ 0) (lines : 0 < window.userLines)
    (column : 1 ≤ later.column) :
    window.Swaps earlier later ↔
      earlier.line = window.leadingLines + window.userLines ∧ 1 < earlier.column ∧
        window.leadingLines + window.userLines < later.line := by
  constructor
  · rintro (⟨-, -, last, inside, behind⟩ | ⟨-, -, -, none⟩ | ⟨-, none, -, -, -⟩)
    · exact ⟨last, inside, behind⟩
    · omega
    · omega
  · rintro ⟨last, inside, behind⟩
    exact .closing generated lines last inside behind

end LineWindow

/-- The span ends before it starts. -/
def Span.Inverted (span : Span) : Prop := ¬span.start.AtOrBefore span.stop
deriving Decidable

/-- A span of a generated text is inverted exactly if it starts in the user's last line, behind its
first column, and ends in the closing lines. -/
theorem LineWindow.inverted_mapSpan_iff {window : LineWindow} {span : Span}
    (generated : window.leadingLines ≠ 0) (lines : 0 < window.userLines)
    (ordered : span.start.AtOrBefore span.stop) (column : 1 ≤ span.stop.column) :
    (window.mapSpan span).Inverted ↔
      span.start.line = window.leadingLines + window.userLines ∧ 1 < span.start.column ∧
        window.leadingLines + window.userLines < span.stop.line :=
  (swaps_iff ordered).trans (Swaps.iff_closing generated lines column)

end IncrementalC
