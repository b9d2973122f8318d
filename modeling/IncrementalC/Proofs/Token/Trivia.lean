import IncrementalC.Proofs.Token.Continuation

/-!
Contract: what trivia consist of.

Trivia are white space and comments, each comment up to where it first ends. A line comment may
also end where the text does.

Owns:
- the grammar of trivia;
- that the reader of tokens takes trivia and nothing else, and all of them, and that only a
  block comment without end keeps it from that.

Does not own: how trivia are taken from the front of a text otherwise.
-/

namespace IncrementalC

/-- White space and comments. The flag says whether the last of them is a line comment without
the line break that would end it. -/
inductive Trivia : (stopsInLine : Bool) → List Char → Prop where
  | nil : Trivia false []
  | blank {stopsInLine : Bool} {character : Char} {rest : List Char}
      (white : Text.isBlank character = true) (others : Trivia stopsInLine rest) :
      Trivia stopsInLine (character :: rest)
  | line {stopsInLine : Bool} {comment rest : List Char} (oneLine : '\n' ∉ comment)
      (others : Trivia stopsInLine rest) :
      Trivia stopsInLine ('/' :: '/' :: (comment ++ '\n' :: rest))
  | lastLine {comment : List Char} (oneLine : '\n' ∉ comment) :
      Trivia true ('/' :: '/' :: comment)
  | block {stopsInLine : Bool} {comment rest : List Char} (unended : ¬['*', '/'] <:+: comment)
      (others : Trivia stopsInLine rest) :
      Trivia stopsInLine ('/' :: '*' :: (comment ++ '*' :: '/' :: rest))

theorem Trivia.of_blanks {blanks : List Char}
    (white : ∀ character ∈ blanks, Text.isBlank character = true) : Trivia false blanks := by
  induction blanks with
  | nil => exact .nil
  | cons head rest inductionHypothesis =>
    exact .blank (white head List.mem_cons_self)
      (inductionHypothesis fun character member => white character (List.mem_cons_of_mem _ member))

/-! ## What the reader takes -/

/-- The marks behind which a reader of trivia stands in `context`. -/
def TriviaContext.marks : TriviaContext → List Char
  | .code => []
  | .lineComment => ['/', '/']
  | .blockComment => ['/', '*']

/-- One more character of a line comment. -/
theorem Trivia.cons_line {stopsInLine : Bool} {character : Char} {rest : List Char}
    (trivia : Trivia stopsInLine ('/' :: '/' :: rest)) (noBreak : character ≠ '\n') :
    Trivia stopsInLine ('/' :: '/' :: character :: rest) := by
  cases trivia with
  | blank white => exact absurd white (by decide)
  | @line _ comment rest oneLine others =>
    exact @Trivia.line _ (character :: comment) _ (by simp [oneLine, Ne.symm noBreak]) others
  | lastLine oneLine => exact .lastLine (by simp [oneLine, Ne.symm noBreak])

/-- One more character of a block comment. -/
theorem Trivia.cons_block {stopsInLine : Bool} {character : Char} {rest : List Char}
    (trivia : Trivia stopsInLine ('/' :: '*' :: rest))
    (stays : ∀ others, character = '*' → rest = '/' :: others → False) :
    Trivia stopsInLine ('/' :: '*' :: character :: rest) := by
  cases trivia with
  | blank white => exact absurd white (by decide)
  | @block _ comment rest unended others =>
    refine @Trivia.block _ (character :: comment) _ ?_ others
    rw [List.infix_cons_iff, not_or]
    refine ⟨fun ends => ?_, unended⟩
    obtain ⟨rfl, more, rfl⟩ := List.cons_prefix_cons.mp ends
    exact stays _ rfl rfl

/-- What the reader takes are trivia. Only the end of the text ends a line comment without its
line break. -/
theorem trivia_of_length {context : TriviaContext} {characters : List Char} {count : Nat}
    (taken : triviaLength? context characters = some count) :
    ∃ stopsInLine, Trivia stopsInLine (context.marks ++ characters.take count) ∧
      (stopsInLine = true → characters.drop count = []) := by
  fun_induction triviaLength? context characters generalizing count with
  | case1 => exact ⟨false, by simpa using .nil, by simp⟩
  | case2 rest inductionHypothesis | case3 rest inductionHypothesis =>
    obtain ⟨count, found, rfl⟩ := Option.map_eq_some_iff.mp taken
    exact inductionHypothesis found
  | case4 head rest notLine notBlock white inductionHypothesis =>
    obtain ⟨count, found, rfl⟩ := Option.map_eq_some_iff.mp taken
    obtain ⟨stopsInLine, trivia, ended⟩ := inductionHypothesis found
    exact ⟨stopsInLine, .blank white trivia, ended⟩
  | case5 head rest notLine notBlock solid =>
    obtain rfl : 0 = count := Option.some.inj taken
    exact ⟨false, .nil, by simp⟩
  | case6 =>
    exact ⟨true, by simpa [TriviaContext.marks] using .lastLine (List.not_mem_nil), by simp⟩
  | case7 rest inductionHypothesis =>
    obtain ⟨count, found, rfl⟩ := Option.map_eq_some_iff.mp taken
    obtain ⟨stopsInLine, trivia, ended⟩ := inductionHypothesis found
    exact ⟨stopsInLine, @Trivia.line _ [] _ List.not_mem_nil trivia, ended⟩
  | case8 head rest noBreak inductionHypothesis =>
    obtain ⟨count, found, rfl⟩ := Option.map_eq_some_iff.mp taken
    obtain ⟨stopsInLine, trivia, ended⟩ := inductionHypothesis found
    exact ⟨stopsInLine, trivia.cons_line noBreak, ended⟩
  | case9 => cases taken
  | case10 rest inductionHypothesis =>
    obtain ⟨count, found, rfl⟩ := Option.map_eq_some_iff.mp taken
    obtain ⟨stopsInLine, trivia, ended⟩ := inductionHypothesis found
    exact ⟨stopsInLine, @Trivia.block _ [] _ (by simp) trivia, ended⟩
  | case11 head rest stays inductionHypothesis =>
    obtain ⟨count, found, rfl⟩ := Option.map_eq_some_iff.mp taken
    obtain ⟨stopsInLine, trivia, ended⟩ := inductionHypothesis found
    refine ⟨stopsInLine, trivia.cons_block ?_, ended⟩
    rintro others rfl next
    cases rest with
    | nil => simp at next
    | cons second rest =>
      cases count with
      | zero => simp at next
      | succ count => exact stays rest rfl (by rw [(List.cons.inj next).1])

theorem not_trivia_slash {stopsInLine : Bool} : ¬Trivia stopsInLine ['/'] := by
  rintro (_ | white)
  exact absurd white (by decide)

/-- Trivia that do not end are followed by a block comment that does not end. -/
theorem trivia_of_unended {context : TriviaContext} {characters : List Char}
    (unended : triviaLength? context characters = none) :
    ∃ gap comment, Trivia false gap ∧ ¬['*', '/'] <:+: comment ∧
      context.marks ++ characters = gap ++ '/' :: '*' :: comment := by
  fun_induction triviaLength? context characters with
  | case1 | case5 | case6 => cases unended
  | case2 rest inductionHypothesis | case3 rest inductionHypothesis =>
    exact inductionHypothesis (Option.map_eq_none_iff.mp unended)
  | case4 head rest notLine notBlock white inductionHypothesis =>
    obtain ⟨gap, comment, trivia, noEnd, split⟩ :=
      inductionHypothesis (Option.map_eq_none_iff.mp unended)
    exact ⟨head :: gap, comment, .blank white trivia, noEnd, congrArg (head :: ·) split⟩
  | case7 rest inductionHypothesis =>
    obtain ⟨gap, comment, trivia, noEnd, split⟩ :=
      inductionHypothesis (Option.map_eq_none_iff.mp unended)
    exact ⟨_, comment, @Trivia.line _ [] _ List.not_mem_nil trivia, noEnd,
      congrArg ('/' :: '/' :: '\n' :: ·) split⟩
  | case8 head rest noBreak inductionHypothesis =>
    obtain ⟨gap, comment, trivia, noEnd, split⟩ :=
      inductionHypothesis (Option.map_eq_none_iff.mp unended)
    obtain ⟨others, rfl, rfl⟩ : ∃ others, gap = '/' :: '/' :: others ∧
        rest = others ++ '/' :: '*' :: comment := by
      rcases gap with _ | ⟨mark, _ | ⟨second, others⟩⟩
      · simp [TriviaContext.marks] at split
      · obtain ⟨rfl, -⟩ : '/' = mark ∧ _ := by simpa [TriviaContext.marks] using split
        exact absurd trivia not_trivia_slash
      · simpa [TriviaContext.marks, eq_comm, and_assoc] using split
    exact ⟨_, comment, trivia.cons_line noBreak, noEnd, rfl⟩
  | case9 => exact ⟨[], [], .nil, by simp, rfl⟩
  | case10 rest inductionHypothesis =>
    obtain ⟨gap, comment, trivia, noEnd, split⟩ :=
      inductionHypothesis (Option.map_eq_none_iff.mp unended)
    exact ⟨_, comment, @Trivia.block _ [] _ (by simp) trivia, noEnd,
      congrArg ('/' :: '*' :: '*' :: '/' :: ·) split⟩
  | case11 head rest stays inductionHypothesis =>
    obtain ⟨gap, comment, trivia, noEnd, split⟩ :=
      inductionHypothesis (Option.map_eq_none_iff.mp unended)
    rcases gap with _ | ⟨mark, _ | ⟨second, others⟩⟩
    · obtain rfl : rest = comment := by simpa [TriviaContext.marks] using split
      refine ⟨[], head :: rest, .nil, ?_, rfl⟩
      rw [List.infix_cons_iff, not_or]
      refine ⟨fun ends => ?_, noEnd⟩
      obtain ⟨rfl, more, rfl⟩ := List.cons_prefix_cons.mp ends
      exact stays _ rfl rfl
    · simp [TriviaContext.marks] at split
    · obtain ⟨rfl, rfl, rfl⟩ : '/' = mark ∧ '*' = second ∧
          rest = others ++ '/' :: '*' :: comment := by
        simpa [TriviaContext.marks] using split
      refine ⟨_, comment, trivia.cons_block ?_, noEnd, rfl⟩
      rintro more rfl rfl
      exact stays _ rfl rfl

/-! ## All trivia are taken -/

theorem triviaLength?_lineComment_append {comment rest : List Char} (oneLine : '\n' ∉ comment) :
    triviaLength? .lineComment (comment ++ '\n' :: rest) =
      (triviaLength? .code rest).map (· + (comment.length + 1)) := by
  induction comment with
  | nil => rw [List.nil_append, triviaLength?, if_pos rfl]; rfl
  | cons head comment inductionHypothesis =>
    rw [List.mem_cons, not_or] at oneLine
    rw [List.cons_append, triviaLength?, if_neg (Ne.symm oneLine.1),
      inductionHypothesis oneLine.2, Option.map_map]
    rfl

theorem triviaLength?_lineComment_of_not_mem {comment : List Char} (oneLine : '\n' ∉ comment) :
    triviaLength? .lineComment comment = some comment.length := by
  induction comment with
  | nil => rfl
  | cons head comment inductionHypothesis =>
    rw [List.mem_cons, not_or] at oneLine
    rw [triviaLength?, if_neg (Ne.symm oneLine.1), inductionHypothesis oneLine.2]
    rfl

theorem triviaLength?_blockComment_append {comment rest : List Char}
    (unended : ¬['*', '/'] <:+: comment) :
    triviaLength? .blockComment (comment ++ '*' :: '/' :: rest) =
      (triviaLength? .code rest).map (· + (comment.length + 2)) := by
  induction comment with
  | nil => rw [List.nil_append, triviaLength?]; rfl
  | cons head comment inductionHypothesis =>
    rw [List.infix_cons_iff, not_or] at unended
    rw [List.cons_append, triviaLength?_blockComment_cons ?_, inductionHypothesis unended.2,
      Option.map_map]
    · rfl
    · rintro others rfl next
      cases comment with
      | nil => simp at next
      | cons second comment =>
        obtain rfl := (List.cons.inj next).1
        exact unended.1 (by simp)

/-- The reader takes all of the trivia, and goes on behind them. Nothing can stand behind a line
comment without its line break. -/
theorem Trivia.length_append {stopsInLine : Bool} {trivia rest : List Char}
    (taken : Trivia stopsInLine trivia) (ended : stopsInLine = true → rest = []) :
    triviaLength? .code (trivia ++ rest) =
      (triviaLength? .code rest).map (· + trivia.length) := by
  induction taken with
  | nil => exact Option.map_id'.symm
  | @blank _ character others white _ inductionHypothesis =>
    have noSlash : character ≠ '/' := by
      rintro rfl
      exact absurd white (by decide)
    rw [List.cons_append, triviaLength?_cons (fun _ slash _ => noSlash slash)
      (fun _ slash _ => noSlash slash), if_pos white, inductionHypothesis ended, Option.map_map]
    rfl
  | @line _ comment others oneLine _ inductionHypothesis =>
    simp only [List.cons_append, List.append_assoc, triviaLength?,
      triviaLength?_lineComment_append oneLine, inductionHypothesis ended, Option.map_map]
    congr 1
    funext count
    simp only [Function.comp_apply, List.length_cons, List.length_append]
    omega
  | lastLine oneLine =>
    simp [ended rfl, triviaLength?, triviaLength?_lineComment_of_not_mem oneLine]
  | @block _ comment others unended _ inductionHypothesis =>
    simp only [List.cons_append, List.append_assoc, triviaLength?,
      triviaLength?_blockComment_append unended, inductionHypothesis ended, Option.map_map]
    congr 1
    funext count
    simp only [Function.comp_apply, List.length_cons, List.length_append]
    omega

end IncrementalC
