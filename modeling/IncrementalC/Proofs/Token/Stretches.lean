import IncrementalC.Proofs.Token.Segmentation

/-!
Contract: stretches of a text, and what is said about them.

A stretch goes from one place of a text to another one that is not before it. Tokens cover
stretches, and from the start of a token to the end of a later one there is a stretch too. What is
no token is reported at a stretch.

Owns:
- stretches of texts and of tokens, and the order of the places at their ends;
- that tokens stand in their text, and reports about characters that make no token do.

Does not own: which tokens a tree says it stands at.
-/

namespace IncrementalC

/-! ## Places -/

namespace Position

theorem AtOrBefore.trans {first second third : Position} (earlier : first.AtOrBefore second)
    (later : second.AtOrBefore third) : first.AtOrBefore third := by
  unfold AtOrBefore at *
  omega

theorem atOrBefore_advance (position : Position) (character : Char) :
    position.AtOrBefore (position.advance character) := by
  unfold advance AtOrBefore
  split
  · exact .inl (Nat.lt_succ_self _)
  · exact .inr ⟨rfl, Nat.le_succ _⟩

theorem atOrBefore_advanceAll (position : Position) (characters : List Char) :
    position.AtOrBefore (position.advanceAll characters) := by
  induction characters generalizing position with
  | nil => exact .inr ⟨rfl, Nat.le_refl _⟩
  | cons head rest inductionHypothesis =>
    exact (atOrBefore_advance position head).trans (inductionHypothesis _)

end Position

/-! ## Stretches of texts -/

/-- From a place of the text to the same place or a later one. -/
def Span.StandsIn (characters : List Char) (span : Span) : Prop :=
  ∃ front covered, front ++ covered <+: characters ∧
    span = ⟨.behind front, .behind (front ++ covered)⟩

/-- A stretch does not end before it starts. -/
theorem Span.StandsIn.ordered {characters : List Char} {span : Span}
    (stands : span.StandsIn characters) : span.start.AtOrBefore span.stop := by
  obtain ⟨front, covered, -, rfl⟩ := stands
  dsimp only
  rw [← Position.advanceAll_first, ← Position.advanceAll_first, Position.advanceAll_append]
  exact Position.atOrBefore_advanceAll _ covered

/-- Columns count from one. -/
theorem Span.StandsIn.column {characters : List Char} {span : Span}
    (stands : span.StandsIn characters) : 1 ≤ span.stop.column := by
  obtain ⟨front, covered, -, rfl⟩ := stands
  exact Nat.le_add_right 1 _

/-! ## Stretches of tokens -/

/-- From the start of one of the tokens to the end of the same or of a later one. -/
def Stretch (tokens : List Token) (span : Span) : Prop :=
  ∃ first last, (first = last ∧ first ∈ tokens ∨ [first, last].Sublist tokens) ∧
    span = first.span.through last.span

namespace Stretch

variable {tokens more : List Token} {span : Span}

theorem of_mem {token : Token} (member : token ∈ tokens) : Stretch tokens token.span :=
  ⟨token, token, .inl ⟨rfl, member⟩, rfl⟩

theorem ends (stretch : Stretch tokens span) :
    ∃ first ∈ tokens, ∃ last ∈ tokens, span = first.span.through last.span := by
  obtain ⟨first, last, ⟨rfl, member⟩ | ordered, same⟩ := stretch
  · exact ⟨first, member, first, member, same⟩
  · have members := ordered.subset
    exact ⟨first, members List.mem_cons_self, last, members (by simp), same⟩

/-- From a stretch to a later one. -/
theorem through {first last : Span} (starts : Stretch tokens first) (stops : Stretch more last) :
    Stretch (tokens ++ more) (first.through last) := by
  obtain ⟨start, startMember, _, -, rfl⟩ := starts.ends
  obtain ⟨_, -, stop, stopMember, rfl⟩ := stops.ends
  refine ⟨start, stop, .inr ?_, rfl⟩
  exact (List.singleton_sublist.mpr startMember).append (List.singleton_sublist.mpr stopMember)

theorem mono (stretch : Stretch tokens span) (sub : tokens.Sublist more) : Stretch more span := by
  obtain ⟨first, last, within, same⟩ := stretch
  refine ⟨first, last, within.imp ?_ ?_, same⟩
  · exact fun here => ⟨here.1, sub.subset here.2⟩
  · exact fun ordered => ordered.trans sub

/-- From the first of some tokens to the last of them. -/
theorem around (first : Token) (inner : List Token) (last : Token) :
    Stretch (first :: (inner ++ [last])) (first.span.through last.span) :=
  (of_mem (List.mem_singleton_self first)).through
    (of_mem (List.mem_append_right inner (List.mem_singleton_self last)))

end Stretch

/-- A token stands behind what is in front of it. -/
theorem Pieces.stands_of_mem {before rest : List Char} {tokens : List Token}
    (pieces : Pieces before rest tokens) {token : Token} (member : token ∈ tokens) :
    ∃ front covered, before <+: front ∧ front ++ covered <+: before ++ rest ∧
      token.span = ⟨.behind front, .behind (front ++ covered)⟩ := by
  obtain ⟨front, spelling, after, split, further, placed, -⟩ := pieces.of_mem member
  exact ⟨front, spelling, further, split ▸ List.prefix_append _ after, placed⟩

/-- A stretch of the tokens of a text is one of the text. -/
theorem Pieces.stands {before rest : List Char} {tokens : List Token}
    (pieces : Pieces before rest tokens) {span : Span} (stretch : Stretch tokens span) :
    span.StandsIn (before ++ rest) := by
  have single : ∀ {before rest : List Char} {tokens : List Token}, Pieces before rest tokens →
      ∀ token ∈ tokens, token.span.StandsIn (before ++ rest) := by
    intro before rest tokens pieces token member
    obtain ⟨front, covered, -, leads, placed⟩ := pieces.stands_of_mem member
    exact ⟨front, covered, leads, placed⟩
  induction pieces with
  | @stop before gap _ trivia =>
    obtain ⟨first, firstMember, last, lastMember, rfl⟩ := stretch.ends
    obtain rfl := List.mem_singleton.mp firstMember
    obtain rfl := List.mem_singleton.mp lastMember
    exact single (.stop trivia) _ firstMember
  | @token before gap spelling after lexeme others trivia spelled behind inductionHypothesis =>
    obtain ⟨first, last, ⟨rfl, member⟩ | ordered, rfl⟩ := stretch
    · exact single (.token trivia spelled behind) first member
    · have regrouped :
          before ++ gap ++ spelling ++ after = before ++ (gap ++ spelling ++ after) := by
        simp
      rw [← regrouped]
      rcases ordered with _ | ⟨_, later⟩ | ⟨_, later⟩
      · exact inductionHypothesis ⟨first, last, .inr later, rfl⟩
      · -- The first token is the one at the front, and the last one stands behind it.
        obtain ⟨front, covered, further, leads, placed⟩ :=
          behind.stands_of_mem (List.singleton_sublist.mp later)
        obtain ⟨more, rfl⟩ := further
        refine ⟨before ++ gap, spelling ++ more ++ covered, ?_, ?_⟩
        · simpa using leads
        · rw [Span.through, placed]
          simp

/-! ## Reports -/

theorem Cursor.split_advance (cursor : Cursor) (before : List Char) (count : Nat) :
    before ++ cursor.rest.take count ++ (cursor.advance count).rest = before ++ cursor.rest := by
  rw [List.append_assoc]
  exact congrArg (before ++ ·) (List.take_append_drop count cursor.rest)

/-- What is no token is reported at a stretch of the text. -/
theorem report_of_tokensFrom {cursor : Cursor} {diagnostic : Diagnostic}
    (reported : tokensFrom cursor = .error (.invalid diagnostic)) :
    ∀ before, cursor.position = .behind before →
      ∃ (problem : LexicalProblem) (span : Span),
        diagnostic = ⟨problem.code, problem.message, span⟩ ∧
          span.StandsIn (before ++ cursor.rest) := by
  induction cursor using tokensFrom.induct with
  | case1 cursor unended =>
    cases (tokensFrom_of_unended unended).symm.trans reported
  | case2 cursor skipped trivia start blank =>
    cases (tokensFrom_of_blank trivia blank).symm.trans reported
  | case3 cursor skipped trivia start first rest found outcome problem failed =>
    intro before here
    simp only [outcome] at failed
    rw [tokensFrom_of_more trivia found, failed] at reported
    have startsAt := Cursor.position_advance here skipped
    have stopsAt := Cursor.position_advance startsAt ((readLexeme first rest).2 + 1)
    cases reported
    refine ⟨problem, _, rfl, _, _, ?_, congrArg₂ Span.mk startsAt stopsAt⟩
    rw [← Cursor.split_advance cursor before skipped,
      ← Cursor.split_advance (cursor.advance skipped) _ ((readLexeme first rest).2 + 1)]
    exact List.prefix_append _ _
  | case4 cursor skipped trivia start first rest found outcome next lexeme readAs shorter
      inductionHypothesis =>
    intro before here
    simp only [outcome] at readAs
    rw [tokensFrom_of_more trivia found, readAs] at reported
    have startsAt := Cursor.position_advance here skipped
    have nextAt := Cursor.position_advance startsAt (outcome.2 + 1)
    obtain ⟨problem, span, same, stands⟩ :=
      inductionHypothesis (map_eq_error_iff.mp reported) _ nextAt
    rw [Cursor.split_advance, Cursor.split_advance] at stands
    exact ⟨problem, span, same, stands⟩

theorem LexicalProblem.severity_code (problem : LexicalProblem) :
    problem.code.severity = .error := by
  cases problem <;> rfl

end IncrementalC
