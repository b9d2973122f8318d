import IncrementalC.Proofs.Syntax.Walking
import IncrementalC.Proofs.Token.Continuation

/-!
Contract: walks end, go forward, and read what the readers read.

Nesting ends because the depth is limited, and a loop ends because each of its rounds takes a token.

Owns:
- which reader the walk for each part of a program follows, up to whole programs.

Does not own: the comparison of walks with readers and its rules.
-/

namespace IncrementalC.Syntax.TokenText

open Syntax.Parser (OperatorLevel operatorOf? unaryOperatorOf? leftAssociative commaSeparated)

/-! ## Expressions -/

section

variable {text : TokenText} {bound allowance : Nat} {reader deeper : Parser Expression}

theorem expression_eq_nested : text.expression = text.nested text.expressionAtDepth := by
  rw [expression, nested]

variable (enough : text.tokens.length ≤ bound)

/-- By induction on the rounds that the reader may make: each takes an operator, so the tokens that
are left never outnumber them. -/
theorem operatorsBehind_follows (level : OperatorLevel) {tighter : List OperatorLevel}
    (operands : FollowsAt text allowance 1 (text.binaryLevels tighter) reader)
    (rounds : Nat) : ∀ (left : Expression) {before : Station}, before.At text allowance →
      text.tokens.length ≤ before.position + rounds →
      Follows text 0 (text.operatorsBehind level tighter left)
        (leftAssociative level reader rounds left) before := by
  induction rounds with
  | zero =>
    intro left before placed few
    exact absurd placed.position (Nat.not_lt.mpr few)
  | succ rounds inductionHypothesis =>
    intro left before placed few
    rw [operatorsBehind, leftAssociative]
    refine follows_bind_lexeme placed.toInside ?_
    cases here : operatorOf? level (before.token text).lexeme with
    | none => exact follows_pure placed.toInside left
    | some operator =>
      have more : (before.token text).lexeme ≠ .endOfInput := by
        intro ended
        rw [ended] at here
        cases here
      refine follows_bind_take placed.toInside more fun leads further => ?_
      refine (operands (leads.at placed)).bind fun right _ leadsOn _ => ?_
      exact inductionHypothesis _ (leadsOn.at (leads.at placed))
        (by have := leadsOn.position; omega)

include enough in
theorem binaryLevels_followsAt (operands : FollowsAt text allowance 1 text.unary reader)
    (levels : List OperatorLevel) :
    FollowsAt text allowance 1 (text.binaryLevels levels)
      (Parser.binaryLevels bound reader levels) := by
  induction levels with
  | nil =>
    rw [binaryLevels]
    exact operands
  | cons level tighter inductionHypothesis =>
    intro before placed
    rw [binaryLevels]
    refine (inductionHypothesis placed).bind fun left _ leads _ => ?_
    exact operatorsBehind_follows level inductionHypothesis bound left (leads.at placed)
      (Nat.le_add_left_of_le enough)

/-- By induction on the rounds that the reader may make: each takes an expression. -/
theorem argumentList_follows (arguments : FollowsAt text allowance 1 text.expression reader)
    (rounds : Nat) : ∀ {before : Station}, before.At text allowance →
      text.tokens.length ≤ before.position + rounds →
      Follows text 1 text.argumentList (commaSeparated reader rounds) before := by
  induction rounds with
  | zero =>
    intro before placed few
    exact absurd placed.position (Nat.not_lt.mpr few)
  | succ rounds inductionHypothesis =>
    intro before placed few
    rw [argumentList, commaSeparated]
    refine (arguments placed).bind fun first _ leads further => ?_
    refine follows_bind_accept leads.inside (by simp) (fun leadsOn _ => ?_)
      (follows_pure leads.inside [first])
    have := leadsOn.position
    exact (inductionHypothesis (leadsOn.at (leads.at placed)) (by omega)).pure.toZero

include enough in
theorem primary_followsAt (inner : FollowsAt text allowance 1 text.expression reader) :
    FollowsAt text allowance 1 text.primary (Parser.primary bound reader) := by
  intro before placed
  rw [primary]
  refine follows_bind_current placed.toInside ?_
  cases here : (before.token text).lexeme with
  | integer value =>
    exact (gives_bind_take placed.toInside (by simp [here]) _).follows_onward
  | identifier name =>
    refine follows_bind_take placed.toInside (by simp [here]) fun leads _ => ?_
    refine follows_bind_accept leads.inside (by simp) (fun leadsOn _ => ?_)
      (follows_pure leads.inside _)
    refine follows_bind_lexeme leadsOn.inside (follows_ite (fun _ => ?_) fun _ => ?_)
    · exact (follows_expectMark leadsOn.inside _).pure.toZero
    · refine (argumentList_follows inner bound (leadsOn.at (leads.at placed))
        (Nat.le_add_left_of_le enough)).bind fun _ _ leadsBehind _ => ?_
      exact (follows_expectMark leadsBehind.inside _).pure.toZero
  | mark symbol =>
    cases symbol with
    | openParen =>
      refine follows_bind_take placed.toInside (by simp [here]) fun leads _ => ?_
      refine (inner (leads.at placed)).bind fun _ _ leadsOn _ => ?_
      exact (follows_expectMark leadsOn.inside _).pure.toZero
    | _ => exact follows_fail placed.toInside _
  | _ => exact follows_fail placed.toInside _

theorem unary_followsAt (nesting : FollowsAt text allowance 1 (text.nested text.unary) deeper)
    (base : FollowsAt text allowance 1 text.primary reader) :
    FollowsAt text allowance 1 text.unary (Parser.operand deeper reader) := by
  intro before placed
  rw [unary]
  refine follows_bind_current placed.toInside ?_
  cases here : unaryOperatorOf? (before.token text).lexeme with
  | none => exact base placed
  | some operator =>
    have more : (before.token text).lexeme ≠ .endOfInput := by
      intro ended
      rw [ended] at here
      cases here
    refine follows_bind_take placed.toInside more fun leads _ => ?_
    exact (nesting (leads.at placed)).pure.toZero

include enough in
theorem expressionAtDepth_followsAt (operands : FollowsAt text allowance 1 text.unary reader)
    (value : FollowsAt text allowance 1 text.expression deeper) :
    FollowsAt text allowance 1 text.expressionAtDepth
      (Parser.assignment bound reader deeper) := by
  intro before placed
  rw [expressionAtDepth]
  refine (binaryLevels_followsAt enough operands _ placed).bind fun _ _ leads _ => ?_
  exact follows_bind_accept leads.inside (by simp)
    (fun leadsOn _ => (value (leadsOn.at (leads.at placed))).pure.toZero)
    (follows_pure leads.inside _)

include enough in
/-- By induction on how many more levels may nest. -/
theorem expression_unary_followsAt (allowance : Nat) :
    FollowsAt text allowance 1 text.expression (Parser.expression bound allowance) ∧
      FollowsAt text allowance 1 text.unary (Parser.unary bound allowance) := by
  induction allowance with
  | zero =>
    have refused : FollowsAt text 0 1 text.expression Parser.tooDeep :=
      expression_eq_nested ▸ nested_followsAt_zero _
    exact ⟨refused,
      unary_followsAt (nested_followsAt_zero _) (primary_followsAt enough refused)⟩
  | succ allowance inductionHypothesis =>
    obtain ⟨expressions, operands⟩ := inductionHypothesis
    have here : FollowsAt text (allowance + 1) 1 text.expression
        (Parser.expression bound (allowance + 1)) :=
      expression_eq_nested ▸
        nested_followsAt (expressionAtDepth_followsAt enough operands expressions)
    exact ⟨here, unary_followsAt (nested_followsAt operands)
      (primary_followsAt enough here)⟩

include enough in
theorem expression_followsAt :
    FollowsAt text allowance 1 text.expression (Parser.expression bound allowance) :=
  (expression_unary_followsAt enough allowance).1

end

/-! ## Statements -/

section

variable {text : TokenText} {bound allowance : Nat} {reader : Parser Expression}
variable {deeper : Parser Statement}

theorem statement_eq_nested : text.statement = text.nested text.statementAtDepth := by
  rw [statement, nested]

variable (enough : text.tokens.length ≤ bound)
variable (expressions : FollowsAt text allowance 1 text.expression reader)

include expressions in
theorem initialValue?_followsAt :
    FollowsAt text allowance 0 text.initialValue? (Parser.initialValue? reader) := by
  intro before placed
  exact follows_bind_accept placed.toInside (by simp)
    (fun leads _ => (expressions (leads.at placed)).pure.toZero)
    (follows_pure placed.toInside none)

include expressions in
theorem condition_followsAt :
    FollowsAt text allowance 1 text.condition (Parser.condition reader) := by
  intro before placed
  refine (follows_expectMark placed.toInside _).bind fun _ _ leads _ => ?_
  refine (expressions (leads.at placed)).toZero.bind fun _ _ leadsOn _ => ?_
  exact (follows_expectMark leadsOn.inside _).pure.toZero

include expressions in
theorem declaration_follows {before : Station} (placed : before.At text allowance)
    (more : (before.token text).lexeme ≠ .endOfInput) (type : TypeName) (start : Span) :
    Follows text 1 (text.declaration type start)
      (do
        let _ ← Parser.take
        let named ← Parser.identifier
        let initial ← Parser.initialValue? reader
        let close ← Parser.expectMark .semicolon
        return Statement.declare type named.1 initial (start.through close)) before := by
  refine follows_bind_take placed.toInside more fun leads _ => ?_
  have placed := leads.at placed
  refine (follows_identifier placed.toInside).bind fun _ _ leads _ => ?_
  refine (initialValue?_followsAt expressions (leads.at placed)).bind fun _ _ leads _ => ?_
  exact (follows_expectMark leads.inside _).pure.toZero

include expressions in
theorem evaluation_follows {before : Station} (placed : before.At text allowance) :
    Follows text 1
      (do
        let value ← text.expression
        let _ ← text.expectMark .semicolon
        return Statement.evaluate value)
      (do
        let value ← reader
        let _ ← Parser.expectMark .semicolon
        return Statement.evaluate value) before := by
  refine (expressions placed).bind fun _ _ leads _ => ?_
  exact (follows_expectMark leads.inside _).pure.toZero

/-- By induction on the rounds that the reader may make: each takes a statement. -/
theorem statementsToClose_follows (statements : FollowsAt text allowance 1 text.statement deeper)
    (rounds : Nat) : ∀ {before : Station}, before.At text allowance →
      text.tokens.length ≤ before.position + rounds →
      Follows text 0 text.statementsToClose (Parser.statementsToClose deeper rounds) before := by
  induction rounds with
  | zero =>
    intro before placed few
    exact absurd placed.position (Nat.not_lt.mpr few)
  | succ rounds inductionHypothesis =>
    intro before placed few
    rw [statementsToClose, Parser.statementsToClose]
    refine follows_bind_accept placed.toInside (by simp)
      (fun leads _ => follows_pure leads.inside []) ?_
    refine follows_ite nofun fun _ => ?_
    refine (statements placed).bind fun _ _ leads further => ?_
    exact (inductionHypothesis (leads.at placed) (by omega)).pure

include enough in
theorem block_followsAt (statements : FollowsAt text allowance 1 text.statement deeper) :
    FollowsAt text allowance 1 text.block (Parser.block bound deeper) := by
  intro before placed
  rw [block]
  refine (follows_expectMark placed.toInside _).bind fun _ _ leads _ => ?_
  exact statementsToClose_follows statements bound (leads.at placed)
    (Nat.le_add_left_of_le enough)

include enough expressions in
theorem statementAtDepth_followsAt
    (statements : FollowsAt text allowance 1 text.statement deeper) :
    FollowsAt text allowance 1 text.statementAtDepth
      (Parser.statementOf bound reader deeper) := by
  intro before placed
  have inside := placed.toInside
  have declared := declaration_follows expressions placed
  have evaluated := evaluation_follows expressions placed
  rw [statementAtDepth]
  refine follows_bind_current inside ?_
  dsimp only
  cases here : (before.token text).lexeme with
  | keyword word =>
    have more : (before.token text).lexeme ≠ .endOfInput := by simp [here]
    cases word with
    | intType => exact declared more .int _
    | voidType => exact declared more .void _
    | autoType => exact follows_fail inside _
    | externWord => exact follows_fail inside _
    | ifWord =>
      refine follows_bind_take inside more fun leads _ => ?_
      have placed := leads.at placed
      refine (condition_followsAt expressions placed).bind fun _ _ leads _ => ?_
      have placed := leads.at placed
      refine (statements placed).bind fun _ _ leads _ => ?_
      have placed := leads.at placed
      exact follows_bind_accept placed.toInside (by simp)
        (fun leads _ => (statements (leads.at placed)).pure.toZero)
        (follows_pure placed.toInside _)
    | whileWord =>
      refine follows_bind_take inside more fun leads _ => ?_
      have placed := leads.at placed
      refine (condition_followsAt expressions placed).bind fun _ _ leads _ => ?_
      exact (statements (leads.at placed)).pure.toZero
    | returnWord =>
      refine follows_bind_take inside more fun leads _ => ?_
      have placed := leads.at placed
      refine follows_bind_lexeme placed.toInside (follows_ite (fun _ => ?_) fun _ => ?_)
      · exact (follows_expectMark placed.toInside _).pure.toZero
      · refine (expressions placed).bind fun _ _ leads _ => ?_
        exact (follows_expectMark leads.inside _).pure.toZero
    | elseWord => exact evaluated
  | mark symbol =>
    cases symbol with
    | openBrace => exact (block_followsAt enough statements placed).pure
    | semicolon => exact (gives_bind_take inside (by simp [here]) _).follows_onward
    | _ => exact evaluated
  | _ => exact evaluated

include enough in
/-- By induction on how many more levels may nest. -/
theorem statement_followsAt (allowance : Nat) :
    FollowsAt text allowance 1 text.statement (Parser.statement bound allowance) := by
  rw [statement_eq_nested]
  induction allowance with
  | zero => exact nested_followsAt_zero _
  | succ allowance inductionHypothesis =>
    rw [← statement_eq_nested] at inductionHypothesis
    exact nested_followsAt (statementAtDepth_followsAt enough
      (expression_followsAt enough) inductionHypothesis)

end

/-! ## Items -/

section

variable {text : TokenText} {bound : Nat} {before : Station}
variable (enough : text.tokens.length ≤ bound)

/-- An empty parameter list is told by the lexeme at hand and the one behind it. -/
theorem gives_atVoidParameters (inside : before.Inside text) :
    Gives text text.atVoidParameters Parser.atVoidParameters
      (decide ((before.token text).lexeme = .keyword .voidType ∧
        (before.rest text)[1]?.map Token.lexeme = some (.mark .closeParen))) before before where
  walked := by
    refine (outcome_bind_of_ok (gives_current inside).walked).trans ?_
    refine (outcome_bind_of_ok outcome_get).trans ?_
    rw [Station.rest, List.getElem?_drop]
    rfl
  read := by
    rw [Station.token]
    generalize before.rest text = tokens
    unfold Parser.atVoidParameters
    split
    · rfl
    · next other =>
      rw [decide_eq_false]
      rintro ⟨void, closed⟩
      rcases tokens with _ | ⟨⟨first, span⟩, _ | ⟨⟨second, closing⟩, others⟩⟩
      · cases void
      · cases closed
      · obtain rfl : first = .keyword .voidType := void
        obtain rfl : second = .mark .closeParen := Option.some.inj closed
        exact other span closing others rfl
  leads := inside.leads

/-- By induction on the rounds that the reader may make: each takes a parameter. -/
theorem parameterList_follows (rounds : Nat) : ∀ {before : Station}, before.Inside text →
    text.tokens.length ≤ before.position + rounds →
    Follows text 1 text.parameterList (Parser.parameterList rounds) before := by
  induction rounds with
  | zero =>
    intro before inside few
    exact absurd inside.position (Nat.not_lt.mpr few)
  | succ rounds inductionHypothesis =>
    intro before inside few
    rw [parameterList, Parser.parameterList]
    refine follows_bind_span inside ?_
    refine follows_bind_typeName? inside (fun type _ leads further => ?_)
      (follows_fail inside _)
    refine (follows_identifier leads.inside).bind fun _ _ leadsOn furtherOn => ?_
    refine follows_bind_accept leadsOn.inside (by simp) (fun leadsBehind _ => ?_)
      (follows_pure leadsOn.inside _)
    have := leadsBehind.position
    exact (inductionHypothesis leadsBehind.inside (by omega)).pure.toZero

include enough in
theorem parameters_follows (inside : before.Inside text) :
    Follows text 1 text.parameters (Parser.parameters bound) before := by
  refine follows_bind_accept inside (by simp) (fun leads _ => follows_pure leads.inside [])
    (follows_ite nofun fun _ => ?_)
  refine (gives_atVoidParameters inside).follows_bind_stay
    (follows_ite (fun empty => ?_) fun _ => ?_)
  · obtain ⟨void, closed⟩ := of_decide_eq_true empty
    have first := gives_take inside (by simp [void])
    have behind : (before.onward.token text).lexeme = .mark .closeParen := by
      obtain ⟨closing, found, same⟩ := Option.map_eq_some_iff.mp closed
      rw [Station.token_onward, found]
      exact same
    have both := gives_bind_take first.leads.inside (by simp [behind]) ([] : List Parameter)
    exact first.follows_bind (both.follows_onward.weaken (Nat.sub_le _ _))
  · refine (parameterList_follows bound inside (Nat.le_add_left_of_le enough)).bind
      fun _ _ leads _ => ?_
    exact (follows_expectMark leads.inside _).pure.toZero

theorem functionRest_advances (inside : before.Inside text) (returns : TypeName) (name : String)
    (isExternal : Bool) (start : Span) :
    Advances text 0 (text.functionRest returns name isExternal start) before := by
  refine (parameters_follows (Nat.le_refl _) inside).advances.bind fun list _ leads => ?_
  refine (gives_current leads.inside).follows.advances.bind fun token _ leads => ?_
  have inside := leads.inside
  split
  · split
    · exact (follows_fail inside _).advances
    · have statements := statement_followsAt (Nat.le_refl text.tokens.length)
      exact (block_followsAt (Nat.le_refl _) (statements _) inside.at).pure.toZero.advances
  · exact (follows_expect inside _ _).pure.toZero.advances

/-- A walk over an item advances at whatever depth. -/
theorem item_advances (inside : before.Inside text) :
    Advances text 1 text.item before := by
  refine (gives_current inside).follows.advances.bind fun start _ leads => ?_
  refine (follows_accept leads.inside (by simp)).advances.bind fun isExternal _ leads => ?_
  refine (typeName?_advances leads.inside).bind fun type _ leads => ?_
  cases type with
  | none => exact (follows_fail leads.inside _).advances
  | some type =>
    refine (follows_identifier leads.inside).advances.bind fun named _ leads => ?_
    refine (follows_accept leads.inside (by simp)).advances.bind fun isFunction _ leads => ?_
    have placed := leads.inside.at
    split
    · exact functionRest_advances placed.toInside _ _ _ _
    · split
      · exact (follows_reject placed.toInside _ _).advances
      · have initial := initialValue?_followsAt
          (expression_followsAt (Nat.le_refl text.tokens.length)) placed
        refine initial.advances.bind fun _ _ leads => ?_
        exact (follows_expectMark leads.inside _).pure.toZero.advances

include enough in
/-- Items are read at the outermost level only. -/
theorem functionRest_followsAt (returns : TypeName) (name : String) (isExternal : Bool)
    (start : Span) :
    FollowsAt text nestingLimit 1 (text.functionRest returns name isExternal start)
      (Parser.functionRest bound returns name isExternal start) := by
  intro before placed
  refine (parameters_follows enough placed.toInside).bind fun list _ leads _ => ?_
  have placed := leads.at placed
  refine follows_bind_current placed.toInside (follows_ite (fun _ => ?_) fun _ => ?_)
  · refine follows_ite (fun _ => follows_fail placed.toInside _) fun _ => ?_
    exact (block_followsAt enough (statement_followsAt enough _) placed).pure.toZero
  · exact (follows_expect placed.toInside _ _).pure.toZero

include enough in
theorem item_followsAt : FollowsAt text nestingLimit 1 text.item (Parser.item bound) := by
  intro before placed
  refine follows_bind_span placed.toInside ?_
  refine (follows_accept placed.toInside (by simp)).bind fun isExternal _ leads _ => ?_
  have placed := leads.at placed
  refine follows_bind_typeName? placed.toInside (fun type _ leads _ => ?_)
    (follows_fail placed.toInside _)
  refine (follows_identifier leads.inside).bind fun _ _ leadsOn _ => ?_
  have placed := leadsOn.at (leads.at placed)
  refine follows_bind_accept placed.toInside (by simp) (fun leads _ => ?_) ?_
  · exact (functionRest_followsAt enough _ _ _ _ (leads.at placed)).toZero
  · refine follows_ite nofun fun _ => follows_ite (fun _ => follows_reject placed.toInside _ _)
      fun _ => ?_
    have initial := initialValue?_followsAt (expression_followsAt enough) placed
    refine initial.bind fun _ _ leads _ => ?_
    exact (follows_expectMark leads.inside _).pure.toZero

include enough in
/-- By induction on the rounds that the reader may make: each takes an item. -/
theorem program_follows (rounds : Nat) : ∀ {before : Station}, before.At text nestingLimit →
    text.tokens.length ≤ before.position + rounds →
    Follows text 0 text.program (Parser.items bound rounds) before := by
  induction rounds with
  | zero =>
    intro before placed few
    exact absurd placed.position (Nat.not_lt.mpr few)
  | succ rounds inductionHypothesis =>
    intro before placed few
    rw [program, Parser.items]
    refine follows_bind_lexeme placed.toInside (follows_ite (fun _ => ?_) fun _ => ?_)
    · exact follows_pure placed.toInside []
    · refine (item_followsAt enough placed).bind fun _ _ leads further => ?_
      exact (inductionHypothesis (leads.at placed) (by omega)).pure

end

/-! ## Whole programs -/

/-- The walk over a whole text ends, with the program that the tokens spell. -/
theorem outcome_program (text : TokenText) :
    ∃ after, text.program.outcome .start = some (programOfTokens text.tokens, after) ∧
      Station.start.Leads text after := by
  obtain ⟨found, after, walked, read, leads, -⟩ :=
    program_follows (Nat.le_refl _) text.tokens.length (Station.start_inside text).at
      (Nat.le_add_left _ _)
  have same : programOfTokens text.tokens = found := by
    change Parser.items text.tokens.length text.tokens.length text.tokens = _ at read
    rw [programOfTokens, read]
    cases found <;> rfl
  exact ⟨after, same ▸ walked, leads⟩

/-- So does the walk over the tokens of a source text. -/
theorem outcome_program_of_tokenize {source : String} {tokens : List Token}
    (spelled : tokenize source = .ok tokens) :
    ∃ text : TokenText, text.tokens = tokens ∧
      ∃ after, text.program.outcome .start = some (parseProgram source, after) := by
  obtain ⟨before, stop, split, ended, unended, -⟩ := tokenize_newline spelled
  refine ⟨⟨tokens, before, stop, split, unended, ended⟩, rfl, ?_⟩
  obtain ⟨after, walked, -⟩ := outcome_program ⟨tokens, before, stop, split, unended, ended⟩
  rw [parseProgram, spelled]
  exact ⟨after, walked⟩

/-- Whatever the tokens of a text are: from every station inside the text each walk ends, no walk
goes behind the end of input or deeper than allowed, each ends as deep as it began, whether it
succeeds or fails, and each that succeeds has taken a token. The readers read items at the
outermost level only. -/
theorem walks_end_and_advance (text : TokenText) {bound : Nat}
    (enough : text.tokens.length ≤ bound) :
    (∀ {before : Station}, before.Inside text →
      Follows text 1 text.expression (Parser.expression bound before.allowance) before ∧
      (∀ levels, Follows text 1 (text.binaryLevels levels)
        (Parser.binaryLevels bound (Parser.unary bound before.allowance) levels) before) ∧
      Follows text 1 text.argumentList
        (commaSeparated (Parser.expression bound before.allowance) bound) before ∧
      Follows text 1 text.statement (Parser.statement bound before.allowance) before ∧
      Follows text 1 text.block
        (Parser.block bound (Parser.statement bound before.allowance)) before ∧
      Follows text 1 text.parameters (Parser.parameters bound) before ∧
      Advances text 1 text.item before ∧
      (before.depth = 0 → Follows text 1 text.item (Parser.item bound) before)) ∧
    ∃ after, text.program.outcome .start = some (programOfTokens text.tokens, after) ∧
      Station.start.Leads text after := by
  refine ⟨fun {before} inside => ?_, outcome_program text⟩
  have placed := inside.at
  have expressions := expression_unary_followsAt enough before.allowance
  have statements := statement_followsAt enough before.allowance
  refine ⟨expressions.1 placed, fun levels => ?_, ?_, statements placed,
    block_followsAt enough statements placed, parameters_follows enough inside,
    item_advances inside, fun outermost => ?_⟩
  · exact binaryLevels_followsAt enough expressions.2 levels placed
  · exact argumentList_follows expressions.1 bound placed (Nat.le_add_left_of_le enough)
  · exact item_followsAt enough ⟨inside, by rw [outermost, Nat.zero_add]⟩

/-- A text in which the initial value of a variable is missing. -/
def lackingValue : TokenText where
  tokens := [.keyword .intType, .identifier "x", .mark .assign, .mark .openParen,
    .mark .semicolon, .endOfInput].map (⟨·, .nowhere⟩)
  ends := ⟨[.keyword .intType, .identifier "x", .mark .assign, .mark .openParen,
    .mark .semicolon].map (⟨·, .nowhere⟩), ⟨.endOfInput, .nowhere⟩, rfl, by simp [Unended], rfl⟩

/-- The walk over a malformed text ends with a report. One that begins at its parenthesis, under
127 other levels, is refused one level deeper. -/
theorem lackingValue_ends :
    lackingValue.tokens.length ≤ 6 ∧ Station.start.Inside lackingValue ∧
    Follows lackingValue 1 lackingValue.item (Parser.item 6) .start ∧
    (⟨3, 127, 127⟩ : Station).Inside lackingValue ∧
    Follows lackingValue 1 lackingValue.expression (Parser.expression 6 1) ⟨3, 127, 127⟩ ∧
    ∃ after, lackingValue.program.outcome .start =
      some (.error (.invalid ((SyntaxProblem.expected .expression (.mark .semicolon)).reportAt
        .nowhere)), after) ∧ after.depth = 0 := by
  have enough : lackingValue.tokens.length ≤ 6 := by decide
  have start := Station.start_inside lackingValue
  have deep : (⟨3, 127, 127⟩ : Station).Inside lackingValue := ⟨by decide, by decide, by decide⟩
  obtain ⟨walks, after, ended, leads⟩ := walks_end_and_advance lackingValue enough
  obtain ⟨-, -, -, -, -, -, -, items⟩ := walks start
  exact ⟨enough, start, items rfl, deep, (walks deep).1, after, ended, leads.depth⟩

end IncrementalC.Syntax.TokenText
