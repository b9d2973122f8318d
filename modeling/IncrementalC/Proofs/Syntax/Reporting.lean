import IncrementalC.Proofs.Syntax.Readers

/-!
Contract: what a reader reports, and where.

A reader that stops with a report has found a problem of syntax at the token at hand or at one
that it has already passed. So whatever holds of the places of all tokens holds of the place of the
report.

Owns: the places and the problems of reports, for each reader up to whole programs.

Does not own: which readers stop, or for which of the problems.
-/

namespace IncrementalC.Syntax

/-! ## Problems -/

theorem SyntaxProblem.severity_code (problem : SyntaxProblem) : problem.code.severity = .error := by
  cases problem <;> rfl

namespace Parser

/-- All tokens stand at the places, and one of them is the end of input. -/
structure Placed (places : Span → Prop) (tokens : List Token) : Prop where
  ended : ∃ token ∈ tokens, token.lexeme = .endOfInput
  spans : ∀ token ∈ tokens, places token.span

/-- If the tokens stand at the places, those that the reader leaves do, and what it reports is a
problem of syntax at one of the places. -/
structure ReportsAt {α : Type} (places : Span → Prop) (reader : Parser α) : Prop where
  leaves : ∀ {tokens rest : List Token} {value : α}, Placed places tokens →
    reader tokens = .ok (value, rest) → Placed places rest
  reports : ∀ {tokens : List Token} {diagnostic : Diagnostic}, Placed places tokens →
    reader tokens = .error (.invalid diagnostic) →
    ∃ (problem : SyntaxProblem) (span : Span), diagnostic = problem.reportAt span ∧ places span

section

variable {α β : Type} {places : Span → Prop} {reader : Parser α} {next : α → Parser β}

theorem bind_eq_invalid_iff {tokens : List Token} {diagnostic : Diagnostic} :
    (reader >>= next) tokens = .error (.invalid diagnostic) ↔
      reader tokens = .error (.invalid diagnostic) ∨
        ∃ value between, reader tokens = .ok (value, between) ∧
          next value between = .error (.invalid diagnostic) := by
  simp only [bind]
  cases reader tokens with
  | error problem => simp
  | ok finished => simp [Prod.ext_iff, and_assoc]

theorem pure_reportsAt (value : α) : ReportsAt places (pure value : Parser α) where
  leaves placed read := by
    cases read
    exact placed
  reports _ reported := by cases reported

theorem ite_reportsAt {condition : Prop} [Decidable condition] {other : Parser α}
    (first : ReportsAt places reader) (second : ReportsAt places other) :
    ReportsAt places (if condition then reader else other) := by
  split
  · exact first
  · exact second

/-- The rule for one reader behind another, of whose result something is known. -/
theorem ReportsAt.bind_of {holds : α → Prop} (first : ReportsAt places reader)
    (yields : ∀ {tokens rest : List Token} {value : α}, Placed places tokens →
      reader tokens = .ok (value, rest) → holds value)
    (second : ∀ value, holds value → ReportsAt places (next value)) :
    ReportsAt places (reader >>= next) where
  leaves placed read := by
    obtain ⟨value, between, begun, ended⟩ := bind_eq_ok_iff.mp read
    exact (second value (yields placed begun)).leaves (first.leaves placed begun) ended
  reports placed reported := by
    rcases bind_eq_invalid_iff.mp reported with here | ⟨value, between, begun, behind⟩
    · exact first.reports placed here
    · exact (second value (yields placed begun)).reports (first.leaves placed begun) behind

theorem ReportsAt.bind (first : ReportsAt places reader)
    (second : ∀ value, ReportsAt places (next value)) : ReportsAt places (reader >>= next) :=
  @ReportsAt.bind_of α β places reader next (fun _ => True) first (fun _ _ => trivial)
    fun value _ => second value

end

/-! ## Single tokens -/

section

variable {α : Type} {places : Span → Prop}

theorem current_reportsAt : ReportsAt places current where
  leaves placed read := by
    cases read
    exact placed
  reports _ reported := by cases reported

theorem current_bind {next : Token → Parser α}
    (second : ∀ token, places token.span → ReportsAt places (next token)) :
    ReportsAt places (current >>= next) := by
  refine current_reportsAt.bind_of (fun {tokens rest value} placed read => ?_) second
  obtain ⟨token, member, -⟩ := placed.ended
  obtain ⟨head, tail, rfl⟩ := List.exists_cons_of_ne_nil (List.ne_nil_of_mem member)
  cases read
  exact placed.spans head List.mem_cons_self

theorem currentLexeme_reportsAt : ReportsAt places currentLexeme :=
  current_reportsAt.bind fun _ => pure_reportsAt _

theorem currentSpan_bind {next : Span → Parser α}
    (second : ∀ span, places span → ReportsAt places (next span)) :
    ReportsAt places (currentSpan >>= next) :=
  current_bind fun token at_ => second token.span at_

/-- The end of input is never taken. -/
theorem take_reportsAt : ReportsAt places take where
  leaves {tokens rest value} placed read := by
    obtain ⟨⟨last, member, ended⟩, spans⟩ := placed
    rcases tokens with _ | ⟨token, others⟩
    · cases member
    · rw [take] at read
      split at read
      · cases read
        exact ⟨⟨last, member, ended⟩, spans⟩
      · next more =>
        cases read
        have later := (List.mem_cons.mp member).resolve_left fun same => more (same ▸ ended)
        exact ⟨⟨last, later, ended⟩,
          fun token member => spans token (List.mem_cons_of_mem _ member)⟩
  reports {tokens diagnostic} _ reported := by
    rcases tokens with _ | ⟨token, others⟩
    · cases reported
    · rw [take] at reported
      split at reported <;> cases reported

theorem reject_reportsAt {problem : SyntaxProblem} {span : Span} (place : places span) :
    ReportsAt places (reject problem span : Parser α) where
  leaves _ read := by cases read
  reports _ reported := by
    cases reported
    exact ⟨problem, span, rfl, place⟩

theorem incomplete_reportsAt : ReportsAt places (fun _ => .error .incomplete : Parser α) where
  leaves _ read := by cases read
  reports _ reported := by cases reported

theorem fail_reportsAt (problem : SyntaxProblem) : ReportsAt places (fail problem : Parser α) := by
  refine current_bind fun token place => ?_
  exact ite_reportsAt incomplete_reportsAt (reject_reportsAt place)

theorem tooDeep_reportsAt : ReportsAt places (tooDeep : Parser α) :=
  currentSpan_bind fun _ place => reject_reportsAt place

theorem accept_reportsAt (lexeme : Lexeme) : ReportsAt places (accept lexeme) := by
  refine currentLexeme_reportsAt.bind fun found => ?_
  split
  · exact take_reportsAt.bind fun _ => pure_reportsAt _
  · exact pure_reportsAt _

/-- What is read in one of two ways, by the token at hand. -/
theorem acceptElse_reportsAt (lexeme : Lexeme) {next otherwise : Parser α}
    (first : ReportsAt places next) (second : ReportsAt places otherwise) :
    ReportsAt places (do if ← accept lexeme then next else otherwise) :=
  (accept_reportsAt lexeme).bind fun _ => ite_reportsAt first second

theorem expect_reportsAt (symbol : Mark) (expectation : Expectation) :
    ReportsAt places (expect symbol expectation) := by
  refine current_bind fun token place => ?_
  split
  · exact take_reportsAt.bind fun _ => pure_reportsAt _
  · exact fail_reportsAt _

theorem expectMark_reportsAt (symbol : Mark) : ReportsAt places (expectMark symbol) :=
  expect_reportsAt symbol _

theorem identifier_reportsAt : ReportsAt places identifier := by
  refine current_bind fun token place => ?_
  split
  · exact take_reportsAt.bind fun _ => pure_reportsAt _
  · exact fail_reportsAt _

theorem typeName?_reportsAt : ReportsAt places typeName? := by
  refine currentLexeme_reportsAt.bind fun found => ?_
  split
  · exact take_reportsAt.bind fun _ => pure_reportsAt _
  · exact take_reportsAt.bind fun _ => pure_reportsAt _
  · exact take_reportsAt.bind fun _ => pure_reportsAt _
  · exact pure_reportsAt _

end

/-! ## Expressions -/

section

variable {places : Span → Prop} {reader nested : Parser Expression}

/-- By induction on the rounds: each takes the operator at hand. -/
theorem leftAssociative_reportsAt (level : OperatorLevel) (reads : ReportsAt places reader) :
    (bound : Nat) → ∀ left, ReportsAt places (leftAssociative level reader bound left)
  | 0, left => pure_reportsAt left
  | bound + 1, left => by
    refine currentLexeme_reportsAt.bind fun found => ?_
    split
    · exact pure_reportsAt left
    · exact take_reportsAt.bind fun _ => reads.bind fun _ =>
        leftAssociative_reportsAt level reads bound _

theorem binaryLevels_reportsAt (bound : Nat) (reads : ReportsAt places reader) :
    (levels : List OperatorLevel) → ReportsAt places (binaryLevels bound reader levels)
  | [] => reads
  | level :: tighter =>
    have operands := binaryLevels_reportsAt bound reads tighter
    operands.bind fun left => leftAssociative_reportsAt level operands bound left

/-- By induction on the rounds: each but the last takes a comma. -/
theorem commaSeparated_reportsAt (reads : ReportsAt places reader) (bound : Nat) :
    ReportsAt places (commaSeparated reader bound) := by
  induction bound with
  | zero => exact pure_reportsAt []
  | succ bound inductionHypothesis =>
    unfold commaSeparated
    refine reads.bind fun first => acceptElse_reportsAt _ ?_ (pure_reportsAt _)
    exact inductionHypothesis.bind fun rest => pure_reportsAt _

theorem primary_reportsAt (bound : Nat) (reads : ReportsAt places reader) :
    ReportsAt places (primary bound reader) := by
  refine current_bind fun token place => ?_
  rcases token with ⟨lexeme, span⟩
  cases lexeme with
  | integer value => exact take_reportsAt.bind fun _ => pure_reportsAt _
  | identifier name =>
    refine take_reportsAt.bind fun _ => acceptElse_reportsAt _ ?_ (pure_reportsAt _)
    refine currentLexeme_reportsAt.bind fun found => ite_reportsAt ?_ ?_
    · exact (expectMark_reportsAt _).bind fun _ => pure_reportsAt _
    · exact (commaSeparated_reportsAt reads bound).bind fun _ =>
        (expectMark_reportsAt _).bind fun _ => pure_reportsAt _
  | mark symbol =>
    cases symbol with
    | openParen =>
      exact take_reportsAt.bind fun _ => reads.bind fun _ =>
        (expectMark_reportsAt _).bind fun _ => pure_reportsAt _
    | _ => exact fail_reportsAt _
  | _ => exact fail_reportsAt _

theorem operand_reportsAt (deeper : ReportsAt places nested) (reads : ReportsAt places reader) :
    ReportsAt places (operand nested reader) := by
  refine current_bind fun token place => ?_
  split
  · exact reads
  · exact take_reportsAt.bind fun _ => deeper.bind fun _ => pure_reportsAt _

theorem assignment_reportsAt (bound : Nat) (reads : ReportsAt places reader)
    (deeper : ReportsAt places nested) : ReportsAt places (assignment bound reader nested) :=
  (binaryLevels_reportsAt bound reads operatorLevels).bind fun _ =>
    acceptElse_reportsAt _ (deeper.bind fun _ => pure_reportsAt _) (pure_reportsAt _)

/-- By induction on the nesting allowed: a level more adds the readers of one level. -/
theorem expression_unary_reportsAt (bound allowance : Nat) :
    ReportsAt places (expression bound allowance) ∧ ReportsAt places (unary bound allowance) := by
  induction allowance with
  | zero =>
    exact ⟨tooDeep_reportsAt,
      operand_reportsAt tooDeep_reportsAt (primary_reportsAt bound tooDeep_reportsAt)⟩
  | succ allowance inductionHypothesis =>
    obtain ⟨expressionReports, unaryReports⟩ := inductionHypothesis
    have reports := assignment_reportsAt bound unaryReports expressionReports
    exact ⟨reports, operand_reportsAt unaryReports (primary_reportsAt bound reports)⟩

theorem expression_reportsAt (bound allowance : Nat) :
    ReportsAt places (expression bound allowance) :=
  (expression_unary_reportsAt bound allowance).1

theorem initialValue?_reportsAt (reads : ReportsAt places reader) :
    ReportsAt places (initialValue? reader) :=
  acceptElse_reportsAt _ (reads.bind fun _ => pure_reportsAt _) (pure_reportsAt _)

theorem condition_reportsAt (reads : ReportsAt places reader) :
    ReportsAt places (condition reader) :=
  (expectMark_reportsAt _).bind fun _ => reads.bind fun _ =>
    (expectMark_reportsAt _).bind fun _ => pure_reportsAt _

end

/-! ## Statements -/

section

variable {places : Span → Prop} {reader : Parser Expression} {nested : Parser Statement}

/-- By induction on the rounds: each but the last takes a statement. -/
theorem statementsToClose_reportsAt (reads : ReportsAt places nested) :
    (bound : Nat) → ReportsAt places (statementsToClose nested bound)
  | 0 => incomplete_reportsAt
  | bound + 1 => acceptElse_reportsAt _ (pure_reportsAt _)
      (reads.bind fun _ => (statementsToClose_reportsAt reads bound).bind fun _ => pure_reportsAt _)

theorem block_reportsAt (bound : Nat) (reads : ReportsAt places nested) :
    ReportsAt places (block bound nested) :=
  (expectMark_reportsAt _).bind fun _ => statementsToClose_reportsAt reads bound

theorem statementOf_reportsAt (bound : Nat) (reads : ReportsAt places reader)
    (deeper : ReportsAt places nested) : ReportsAt places (statementOf bound reader nested) := by
  have declared : ∀ (finish : String → Option Expression → Span → Statement),
      ReportsAt places (do
        let _ ← take
        let named ← identifier
        let initial ← initialValue? reader
        let close ← expectMark .semicolon
        return finish named.1 initial close) := fun finish =>
    take_reportsAt.bind fun _ => identifier_reportsAt.bind fun _ =>
      (initialValue?_reportsAt reads).bind fun _ =>
        (expectMark_reportsAt _).bind fun _ => pure_reportsAt _
  refine current_bind fun token place => ?_
  dsimp only
  split
  · exact declared fun name initial close => .declare .int name initial (token.span.through close)
  · exact declared fun name initial close => .declare .void name initial (token.span.through close)
  · exact fail_reportsAt _
  · exact fail_reportsAt _
  · exact take_reportsAt.bind fun _ => (condition_reportsAt reads).bind fun _ =>
      deeper.bind fun _ => acceptElse_reportsAt _ (deeper.bind fun _ => pure_reportsAt _)
        (pure_reportsAt _)
  · exact take_reportsAt.bind fun _ => (condition_reportsAt reads).bind fun _ =>
      deeper.bind fun _ => pure_reportsAt _
  · refine take_reportsAt.bind fun _ => currentLexeme_reportsAt.bind fun found => ?_
    split
    · exact (expectMark_reportsAt _).bind fun _ => pure_reportsAt _
    · exact reads.bind fun _ => (expectMark_reportsAt _).bind fun _ => pure_reportsAt _
  · exact (block_reportsAt bound deeper).bind fun _ => pure_reportsAt _
  · exact take_reportsAt.bind fun _ => pure_reportsAt _
  · exact reads.bind fun _ => (expectMark_reportsAt _).bind fun _ => pure_reportsAt _

/-- By induction on the nesting allowed: a level more adds the reader of one level. -/
theorem statement_reportsAt (bound : Nat) :
    (allowance : Nat) → ReportsAt places (statement bound allowance)
  | 0 => tooDeep_reportsAt
  | allowance + 1 => statementOf_reportsAt bound (expression_reportsAt bound allowance)
      (statement_reportsAt bound allowance)

end

/-! ## Items -/

section

variable {places : Span → Prop}

theorem atVoidParameters_reportsAt : ReportsAt places atVoidParameters where
  leaves placed read := by
    unfold atVoidParameters at read
    split at read <;> cases read <;> exact placed
  reports _ reported := by
    unfold atVoidParameters at reported
    split at reported <;> cases reported

/-- By induction on the rounds: each but the last takes a comma. -/
theorem parameterList_reportsAt : (bound : Nat) → ReportsAt places (parameterList bound)
  | 0 => pure_reportsAt _
  | bound + 1 => by
    refine currentSpan_bind fun start place => typeName?_reportsAt.bind fun found => ?_
    split
    · exact fail_reportsAt _
    · exact identifier_reportsAt.bind fun _ => acceptElse_reportsAt _
        ((parameterList_reportsAt bound).bind fun _ => pure_reportsAt _) (pure_reportsAt _)

theorem parameters_reportsAt (bound : Nat) : ReportsAt places (parameters bound) := by
  refine acceptElse_reportsAt _ (pure_reportsAt _) (atVoidParameters_reportsAt.bind fun found => ?_)
  split
  · exact take_reportsAt.bind fun _ => take_reportsAt.bind fun _ => pure_reportsAt _
  · exact (parameterList_reportsAt bound).bind fun _ =>
      (expectMark_reportsAt _).bind fun _ => pure_reportsAt _

theorem functionRest_reportsAt (bound : Nat) (returns : TypeName) (name : String)
    (isExternal : Bool) (start : Span) :
    ReportsAt places (functionRest bound returns name isExternal start) := by
  refine (parameters_reportsAt bound).bind fun list => current_bind fun token place => ?_
  split
  · split
    · exact fail_reportsAt _
    · exact (block_reportsAt bound (statement_reportsAt bound nestingLimit)).bind fun _ =>
        pure_reportsAt _
  · exact (expect_reportsAt _ _).bind fun _ => pure_reportsAt _

/-- An external variable is reported at its first token, which is passed already. -/
theorem item_reportsAt (bound : Nat) : ReportsAt places (item bound) := by
  refine currentSpan_bind fun start place => (accept_reportsAt _).bind fun isExternal =>
    typeName?_reportsAt.bind fun found => ?_
  split
  · exact fail_reportsAt _
  · refine identifier_reportsAt.bind fun _ =>
      acceptElse_reportsAt _ (functionRest_reportsAt bound _ _ _ _) ?_
    split
    · exact reject_reportsAt place
    · exact (initialValue?_reportsAt (expression_reportsAt bound nestingLimit)).bind fun _ =>
        (expectMark_reportsAt _).bind fun _ => pure_reportsAt _

/-- By induction on the rounds: each takes an item. -/
theorem items_reportsAt (limit : Nat) : (bound : Nat) → ReportsAt places (items limit bound)
  | 0 => pure_reportsAt _
  | bound + 1 => by
    refine currentLexeme_reportsAt.bind fun found => ?_
    split
    · exact pure_reportsAt _
    · exact (item_reportsAt limit).bind fun _ => (items_reportsAt limit bound).bind fun _ =>
        pure_reportsAt _

end

end Parser

/-- Tokens that spell no program are reported as a problem of syntax, at the place of one of
them. -/
theorem report_of_programOfTokens {tokens : List Token} {diagnostic : Diagnostic}
    (ended : ∃ token ∈ tokens, token.lexeme = .endOfInput)
    (reported : programOfTokens tokens = .error (.invalid diagnostic)) :
    ∃ (problem : SyntaxProblem) (token : Token),
      token ∈ tokens ∧ diagnostic = problem.reportAt token.span := by
  have placed : Parser.Placed (fun span => ∃ token ∈ tokens, token.span = span) tokens :=
    ⟨ended, fun token member => ⟨token, member, rfl⟩⟩
  unfold programOfTokens at reported
  split at reported
  · next problem read =>
    obtain rfl := Except.error.inj reported
    obtain ⟨problem, span, same, token, member, rfl⟩ :=
      (Parser.items_reportsAt tokens.length tokens.length).reports placed read
    exact ⟨problem, token, member, same⟩
  · cases reported

end IncrementalC.Syntax
