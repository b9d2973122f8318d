import IncrementalC.Proofs.Syntax.Completeness
import IncrementalC.Proofs.Syntax.Soundness

/-!
Contract: what a reader makes of a text that stops, compared with the texts that go on.

A reader that stops before the end of a text does not see what follows, so it does the same
if the text goes on, and so does one that reports a token. What remains are the readers that
reach the end: they may do anything if the text goes on, but there they report nothing, only
that something is missing. Nesting that is too deep is the exception.

Owns:
- the relation between reading a text and reading one that goes on, and its laws;
- one lemma for each reader, up to whole programs.

Does not own: which characters the tokens are read from.
-/

namespace IncrementalC.Syntax.Parser

/-! ## Reading on -/

/-- What the outcome of reading `tokens` and the end of input behind them says about `long`
on the texts that start with `tokens`. -/
def Foretells {α : Type} (long : Parser α) (tokens : List Token) (stop : Token) :
    Except SourceError (α × List Token) → Prop
  | .ok (value, rest) => ∃ taken others, tokens = taken ++ others ∧ rest = others ++ [stop] ∧
      (others ≠ [] → ∀ more, long (tokens ++ more) = .ok (value, others ++ more))
  | .error .incomplete => True
  | .error (.invalid diagnostic) =>
      diagnostic = SyntaxProblem.nestingTooDeep.reportAt stop.span ∨
        tokens ≠ [] ∧ ∀ more, long (tokens ++ more) = .error (.invalid diagnostic)

/-- On texts of at most `length` tokens, what `short` does foretells what `long` does if the
text goes on. -/
def Foresees {α : Type} (length : Nat) (short long : Parser α) : Prop :=
  ∀ ⦃tokens : List Token⦄ ⦃stop : Token⦄, Unended tokens → stop.lexeme = .endOfInput →
    tokens.length ≤ length → Foretells long tokens stop (short (tokens ++ [stop]))

section

variable {α β : Type} {length : Nat}

/-- What is foretold of the reader that continues behind `taken` is foretold of the whole. -/
theorem Foretells.behind {long next : Parser α} {tokens : List Token} {stop : Token}
    {outcome : Except SourceError (α × List Token)} (foretold : Foretells next tokens stop outcome)
    (taken : List Token)
    (continues : tokens ≠ [] → ∀ more, long (taken ++ tokens ++ more) = next (tokens ++ more)) :
    Foretells long (taken ++ tokens) stop outcome := by
  rcases outcome with (_ | diagnostic) | ⟨value, rest⟩
  · trivial
  · exact foretold.imp_right fun refused =>
      ⟨by simp [refused.1], fun more => (continues refused.1 more).trans (refused.2 more)⟩
  · obtain ⟨before, others, rfl, rfl, settled⟩ := foretold
    exact ⟨taken ++ before, others, by simp, rfl, fun remains more =>
      (continues (by simp [remains]) more).trans (settled remains more)⟩

/-- At the end of input a reader may succeed without foretelling anything. -/
theorem foretells_end {long : Parser α} {stop : Token} (value : α) :
    Foretells long [] stop (.ok (value, [stop])) :=
  ⟨[], [], rfl, rfl, fun absent => absurd rfl absent⟩

theorem bind_of_error {reader : Parser α} {tokens : List Token} {problem : SourceError}
    (stopped : reader tokens = .error problem) (next : α → Parser β) :
    (reader >>= next) tokens = .error problem := by
  simp only [Bind.bind, stopped]

theorem Foresees.shorter {fewer : Nat} {short long : Parser α}
    (foresees : Foresees length short long) (bounded : fewer ≤ length) :
    Foresees fewer short long :=
  fun _ _ unended ended few => foresees unended ended (Nat.le_trans few bounded)

theorem foresees_pure (value : α) : Foresees length (pure value : Parser α) (pure value) :=
  fun tokens _ _ _ _ => ⟨[], tokens, rfl, rfl, fun _ _ => rfl⟩

/-- Readers one after the other. At the end of input the second one foretells nothing, but
reports nothing either. -/
theorem Foretells.bind {short long : Parser α} {next nextLong : α → Parser β}
    {tokens : List Token} {stop : Token}
    (first : Foretells long tokens stop (short (tokens ++ [stop])))
    (second : ∀ value taken others, tokens = taken ++ others →
      short (tokens ++ [stop]) = .ok (value, others ++ [stop]) →
      Foretells (nextLong value) others stop (next value (others ++ [stop]))) :
    Foretells (long >>= nextLong) tokens stop ((short >>= next) (tokens ++ [stop])) := by
  cases outcome : short (tokens ++ [stop]) with
  | error problem =>
    rw [outcome] at first
    rw [bind_of_error outcome]
    cases problem with
    | incomplete => trivial
    | invalid diagnostic =>
      exact first.imp_right fun refused =>
        ⟨refused.1, fun more => bind_of_error (refused.2 more) _⟩
  | ok finished =>
    obtain ⟨value, rest⟩ := finished
    rw [outcome] at first
    rw [bind_of_ok outcome]
    obtain ⟨taken, others, rfl, rfl, settled⟩ := first
    exact (second value taken others rfl outcome).behind taken fun remains more =>
      bind_of_ok (settled remains more) _

theorem Foresees.bind {short long : Parser α} {next nextLong : α → Parser β}
    (first : Foresees length short long)
    (second : ∀ value, Foresees length (next value) (nextLong value)) :
    Foresees length (short >>= next) (long >>= nextLong) :=
  fun _ _ unended ended few =>
    (first unended ended few).bind fun value taken others split _ =>
      second value (unended_append.mp (split ▸ unended)).2 ended
        (Nat.le_trans (by simp [split]) few)

theorem Foretells.ite {condition : Prop} [Decidable condition]
    {short long other otherLong : Parser α} {tokens : List Token} {stop : Token}
    (yes : condition → Foretells long tokens stop (short (tokens ++ [stop])))
    (no : ¬condition → Foretells otherLong tokens stop (other (tokens ++ [stop]))) :
    Foretells (if condition then long else otherLong) tokens stop
      ((if condition then short else other : Parser α) (tokens ++ [stop])) := by
  by_cases holds : condition
  · rw [if_pos holds, if_pos holds]
    exact yes holds
  · rw [if_neg holds, if_neg holds]
    exact no holds

theorem Foresees.ite {condition : Prop} [Decidable condition] {short long other otherLong : Parser α}
    (yes : Foresees length short long) (no : Foresees length other otherLong) :
    Foresees length (if condition then short else other)
      (if condition then long else otherLong) := by
  split
  · exact yes
  · exact no

end

/-! ## Single tokens -/

section

variable {α β : Type} {length : Nat}

theorem foresees_current : Foresees length current current := by
  intro tokens stop _ _ _
  refine ⟨[], tokens, rfl, rfl, fun remains more => ?_⟩
  cases tokens with
  | nil => exact absurd rfl remains
  | cons token others => rfl

theorem foresees_currentLexeme : Foresees length currentLexeme currentLexeme :=
  foresees_current.bind fun _ => foresees_pure _

theorem foresees_currentSpan : Foresees length currentSpan currentSpan :=
  foresees_current.bind fun _ => foresees_pure _

theorem foresees_take : Foresees length take take := by
  intro tokens stop unended ended _
  cases tokens with
  | nil =>
    rw [List.nil_append, take, if_pos ended]
    exact foretells_end stop
  | cons token others =>
    have more := (unended_cons.mp unended).1
    rw [List.cons_append, take_cons more]
    exact ⟨[token], others, rfl, rfl, fun _ behind => take_cons more _⟩

/-- At the end of input nothing is reported. -/
theorem foresees_fail (problem : SyntaxProblem) :
    Foresees length (fail problem : Parser α) (fail problem) := by
  intro tokens stop unended ended _
  cases tokens with
  | nil =>
    have missing : (fail problem : Parser α) [stop] = .error .incomplete :=
      congrFun (if_pos ended) [stop]
    rw [List.nil_append, missing]
    trivial
  | cons token others =>
    have reported : ∀ rest, (fail problem : Parser α) (token :: rest) =
        .error (.invalid (problem.reportAt token.span)) :=
      fun rest => congrFun (if_neg (unended_cons.mp unended).1) (token :: rest)
    rw [List.cons_append, reported]
    exact .inr ⟨by simp, fun more => reported (others ++ more)⟩

/-- Nesting that is too deep is reported even at the end of input. -/
theorem foresees_tooDeep : Foresees length (tooDeep : Parser α) tooDeep := by
  intro tokens stop _ _ _
  cases tokens with
  | nil => exact .inl rfl
  | cons token others => exact .inr ⟨by simp, fun _ => rfl⟩

theorem foresees_accept (lexeme : Lexeme) :
    Foresees length (accept lexeme) (accept lexeme) :=
  foresees_currentLexeme.bind fun _ =>
    .ite (foresees_take.bind fun _ => foresees_pure true) (foresees_pure false)

theorem bind_accept_cons {lexeme : Lexeme} (real : lexeme ≠ .endOfInput)
    (reader otherwise : Parser α) (span : Span) (rest : List Token) :
    (do if ← accept lexeme then reader else otherwise : Parser α) (⟨lexeme, span⟩ :: rest) =
      reader rest :=
  bind_of_ok (accept_cons real span rest) _

theorem bind_accept_of_ne {lexeme : Lexeme} (reader otherwise : Parser α) {rest : List Token}
    (differs : nextLexeme rest ≠ lexeme) :
    (do if ← accept lexeme then reader else otherwise : Parser α) rest = otherwise rest :=
  bind_of_ok (accept_of_ne differs) _

/-- What follows a lexeme that was taken is shorter. -/
theorem foresees_acceptElse {lexeme : Lexeme} (real : lexeme ≠ .endOfInput)
    {short long other otherLong : Parser α}
    (behind : ∀ fewer < length, Foresees fewer short long)
    (otherwise : Foresees length other otherLong) :
    Foresees length (do if ← accept lexeme then short else other)
      (do if ← accept lexeme then long else otherLong) := by
  intro tokens stop unended ended few
  by_cases next : nextLexeme tokens = lexeme
  · obtain ⟨span, others, rfl⟩ := exists_of_nextLexeme next real
    have foretold := behind others.length few (unended_cons.mp unended).2 ended (Nat.le_refl _)
    rw [← bind_accept_cons real short other span] at foretold
    exact foretold.behind [_] fun _ more => bind_accept_cons real _ _ span _
  · have differs : nextLexeme (tokens ++ [stop]) ≠ lexeme := by
      cases tokens with
      | nil => simpa [ended] using real.symm
      | cons token others => exact next
    have foretold := otherwise unended ended few
    rw [← bind_accept_of_ne short other differs] at foretold
    refine foretold.behind [] fun remains more => bind_accept_of_ne _ _ ?_
    cases tokens with
    | nil => exact absurd rfl remains
    | cons token others => exact next

theorem foresees_expect (symbol : Mark) (expectation : Expectation) :
    Foresees length (expect symbol expectation) (expect symbol expectation) :=
  foresees_current.bind fun _ =>
    .ite (foresees_take.bind fun _ => foresees_pure _) (foresees_fail _)

theorem foresees_expectMark (symbol : Mark) :
    Foresees length (expectMark symbol) (expectMark symbol) :=
  foresees_expect symbol _

theorem foresees_identifier : Foresees length identifier identifier := by
  refine foresees_current.bind fun token => ?_
  rcases token with ⟨lexeme, span⟩
  cases lexeme with
  | identifier name => exact foresees_take.bind fun _ => foresees_pure _
  | keyword word => exact foresees_fail _
  | integer value => exact foresees_fail _
  | mark symbol => exact foresees_fail _
  | endOfInput => exact foresees_fail _

theorem foresees_typeName? : Foresees length typeName? typeName? := by
  refine foresees_currentLexeme.bind fun lexeme => ?_
  cases lexeme with
  | keyword word =>
    cases word with
    | intType => exact foresees_take.bind fun _ => foresees_pure _
    | voidType => exact foresees_take.bind fun _ => foresees_pure _
    | autoType => exact foresees_take.bind fun _ => foresees_pure _
    | externWord => exact foresees_pure _
    | ifWord => exact foresees_pure _
    | elseWord => exact foresees_pure _
    | whileWord => exact foresees_pure _
    | returnWord => exact foresees_pure _
  | identifier name => exact foresees_pure _
  | integer value => exact foresees_pure _
  | mark symbol => exact foresees_pure _
  | endOfInput => exact foresees_pure _

end

/-! ## Expressions -/

section

variable {length bound larger : Nat} {short long : Parser Expression}

/-- By induction on the rounds: each takes the operator at hand. -/
theorem foresees_leftAssociative (level : OperatorLevel) : (bound larger : Nat) →
    {length : Nat} → bound ≤ larger → length ≤ bound → Foresees length short long →
    ∀ left, Foresees length (leftAssociative level short bound left)
      (leftAssociative level long larger left)
  | 0, larger, length, _, bounded, operand, left => by
    intro tokens stop _ _ few
    obtain rfl := List.length_eq_zero_iff.mp (Nat.le_zero.mp (Nat.le_trans few bounded))
    exact foretells_end left
  | bound + 1, 0, length, above, _, _, _ => absurd above (Nat.not_succ_le_zero _)
  | bound + 1, larger + 1, length, above, bounded, operand, left => by
    intro tokens stop unended ended few
    cases found : operatorOf? level (nextLexeme (tokens ++ [stop])) with
    | none =>
      rw [leftAssociative_of_none found]
      refine ⟨[], tokens, rfl, rfl, fun remains more => leftAssociative_of_none ?_ _⟩
      cases tokens with
      | nil => exact absurd rfl remains
      | cons token others => exact found
    | some operator =>
      obtain ⟨symbol, next, denotes⟩ := mark_of_operatorOf? found
      cases tokens with
      | nil => exact absurd (ended.symm.trans next) (by simp)
      | cons token others =>
        obtain ⟨lexeme, sign⟩ := token
        obtain rfl : lexeme = .mark symbol := next
        rw [List.cons_append, leftAssociative_operator denotes]
        have fewer : others.length ≤ bound := Nat.le_of_succ_le_succ (Nat.le_trans few bounded)
        have shorter : others.length ≤ length := Nat.le_of_succ_le few
        have foretold := (operand.shorter shorter).bind
          (fun right => foresees_leftAssociative level bound larger
            (Nat.le_of_succ_le_succ above) fewer (operand.shorter shorter)
            (.binary operator left right (left.span.through right.span)))
          (unended_cons.mp unended).2 ended (Nat.le_refl _)
        exact foretold.behind [_] fun _ more =>
          leftAssociative_operator denotes larger sign _

theorem foresees_binaryLevels (above : bound ≤ larger) (bounded : length ≤ bound)
    (operand : Foresees length short long) : (levels : List OperatorLevel) →
      Foresees length (binaryLevels bound short levels) (binaryLevels larger long levels)
  | [] => operand
  | _ :: tighter =>
    (foresees_binaryLevels above bounded operand tighter).bind fun left =>
      foresees_leftAssociative _ bound larger above bounded
        (foresees_binaryLevels above bounded operand tighter) left

/-- By induction on the rounds: each but the last takes a comma. -/
theorem foresees_commaSeparated : (bound larger : Nat) → {length : Nat} → bound ≤ larger →
    length ≤ bound → Foresees length short long →
    Foresees length (commaSeparated short bound) (commaSeparated long larger)
  | 0, larger, length, _, bounded, _ => by
    intro tokens stop _ _ few
    obtain rfl := List.length_eq_zero_iff.mp (Nat.le_zero.mp (Nat.le_trans few bounded))
    exact foretells_end []
  | bound + 1, 0, length, above, _, _ => absurd above (Nat.not_succ_le_zero _)
  | bound + 1, larger + 1, length, above, bounded, expression =>
    expression.bind fun first =>
      foresees_acceptElse (by simp)
        (fun _ fewer => (foresees_commaSeparated bound larger (Nat.le_of_succ_le_succ above)
          (Nat.le_of_lt_succ (Nat.lt_of_lt_of_le fewer bounded))
          (expression.shorter (Nat.le_of_lt fewer))).bind fun _ => foresees_pure _)
        (foresees_pure _)

theorem foresees_primary (above : bound ≤ larger) (bounded : length ≤ bound)
    (expression : Foresees length short long) :
    Foresees length (primary bound short) (primary larger long) := by
  refine foresees_current.bind fun token => ?_
  rcases token with ⟨lexeme, span⟩
  cases lexeme with
  | integer value => exact foresees_take.bind fun _ => foresees_pure _
  | identifier name =>
    refine foresees_take.bind fun _ => (foresees_accept _).bind fun _ => .ite ?_ (foresees_pure _)
    refine foresees_currentLexeme.bind fun _ => .ite ?_ ?_
    · exact (foresees_expectMark _).bind fun _ => foresees_pure _
    · exact (foresees_commaSeparated bound larger above bounded expression).bind fun _ =>
        (foresees_expectMark _).bind fun _ => foresees_pure _
  | mark symbol =>
    cases symbol with
    | openParen =>
      exact foresees_take.bind fun _ => expression.bind fun _ =>
        (foresees_expectMark _).bind fun _ => foresees_pure _
    | _ => exact foresees_fail _
  | keyword word => exact foresees_fail _
  | endOfInput => exact foresees_fail _

theorem foresees_operand {base baseLong : Parser Expression}
    (nested : Foresees length short long) (plain : Foresees length base baseLong) :
    Foresees length (operand short base) (operand long baseLong) := by
  refine foresees_current.bind fun token => ?_
  cases unaryOperatorOf? token.lexeme with
  | none => exact plain
  | some operator =>
    exact foresees_take.bind fun _ => nested.bind fun _ => foresees_pure _

theorem foresees_assignment {value valueLong : Parser Expression} (above : bound ≤ larger)
    (bounded : length ≤ bound) (operand : Foresees length short long)
    (nested : Foresees length value valueLong) :
    Foresees length (assignment bound short value) (assignment larger long valueLong) :=
  (foresees_binaryLevels above bounded operand operatorLevels).bind fun _ =>
    (foresees_accept _).bind fun _ =>
      .ite (nested.bind fun _ => foresees_pure _) (foresees_pure _)

/-- By induction on the nesting allowed: a level more adds the readers of one level. -/
theorem foresees_expression_unary (above : bound ≤ larger) (bounded : length ≤ bound)
    (allowance : Nat) :
    Foresees length (expression bound allowance) (expression larger allowance) ∧
      Foresees length (unary bound allowance) (unary larger allowance) := by
  induction allowance with
  | zero =>
    exact ⟨foresees_tooDeep,
      foresees_operand foresees_tooDeep (foresees_primary above bounded foresees_tooDeep)⟩
  | succ allowance inductionHypothesis =>
    obtain ⟨nested, unary⟩ := inductionHypothesis
    have expression : Foresees length (Parser.expression bound (allowance + 1))
        (Parser.expression larger (allowance + 1)) :=
      foresees_assignment above bounded unary nested
    exact ⟨expression, foresees_operand unary (foresees_primary above bounded expression)⟩

theorem foresees_expression (above : bound ≤ larger) (bounded : length ≤ bound)
    (allowance : Nat) :
    Foresees length (expression bound allowance) (expression larger allowance) :=
  (foresees_expression_unary above bounded allowance).1

theorem foresees_initialValue? (expression : Foresees length short long) :
    Foresees length (initialValue? short) (initialValue? long) :=
  (foresees_accept _).bind fun _ =>
    .ite (expression.bind fun _ => foresees_pure _) (foresees_pure _)

theorem foresees_condition (expression : Foresees length short long) :
    Foresees length (condition short) (condition long) :=
  (foresees_expectMark _).bind fun _ => expression.bind fun _ =>
    (foresees_expectMark _).bind fun _ => foresees_pure _

end

/-! ## Statements -/

section

variable {length bound larger : Nat} {short long : Parser Statement}

/-- A block that does not end in so many rounds is unfinished. -/
theorem foresees_statementsToClose (statement : Foresees length short long) :
    (bound larger : Nat) → bound ≤ larger →
      Foresees length (statementsToClose short bound) (statementsToClose long larger)
  | 0, _, _ => fun _ _ _ _ _ => trivial
  | _ + 1, 0, above => absurd above (Nat.not_succ_le_zero _)
  | bound + 1, larger + 1, above =>
    (foresees_accept _).bind fun _ => .ite (foresees_pure _) (statement.bind fun _ =>
      (foresees_statementsToClose statement bound larger (Nat.le_of_succ_le_succ above)).bind
        fun _ => foresees_pure _)

theorem foresees_block (statement : Foresees length short long) (above : bound ≤ larger) :
    Foresees length (block bound short) (block larger long) :=
  (foresees_expectMark _).bind fun _ => foresees_statementsToClose statement bound larger above

theorem foresees_declaration {value valueLong : Parser Expression} (type : TypeName)
    (start : Span) (expression : Foresees length value valueLong) :
    Foresees length
      (do
        let _ ← take
        let (name, _) ← identifier
        let initial ← initialValue? value
        let close ← expectMark .semicolon
        return .declare type name initial (start.through close) : Parser Statement)
      (do
        let _ ← take
        let (name, _) ← identifier
        let initial ← initialValue? valueLong
        let close ← expectMark .semicolon
        return .declare type name initial (start.through close)) :=
  foresees_take.bind fun _ => foresees_identifier.bind fun _ =>
    (foresees_initialValue? expression).bind fun _ =>
      (foresees_expectMark _).bind fun _ => foresees_pure _

theorem foresees_statementOf {value valueLong : Parser Expression} (above : bound ≤ larger)
    (expression : Foresees length value valueLong) (nested : Foresees length short long) :
    Foresees length (statementOf bound value short) (statementOf larger valueLong long) := by
  have evaluated : Foresees length
      (do
        let result ← value
        let _ ← expectMark .semicolon
        return .evaluate result : Parser Statement)
      (do
        let result ← valueLong
        let _ ← expectMark .semicolon
        return .evaluate result) :=
    expression.bind fun _ => (foresees_expectMark _).bind fun _ => foresees_pure _
  refine foresees_current.bind fun token => ?_
  rcases token with ⟨lexeme, span⟩
  cases lexeme with
  | keyword word =>
    cases word with
    | intType => exact foresees_declaration .int span expression
    | voidType => exact foresees_declaration .void span expression
    | autoType => exact foresees_fail _
    | externWord => exact foresees_fail _
    | ifWord =>
      exact foresees_take.bind fun _ => (foresees_condition expression).bind fun _ =>
        nested.bind fun _ => (foresees_accept _).bind fun _ =>
          .ite (nested.bind fun _ => foresees_pure _) (foresees_pure _)
    | whileWord =>
      exact foresees_take.bind fun _ => (foresees_condition expression).bind fun _ =>
        nested.bind fun _ => foresees_pure _
    | returnWord =>
      refine foresees_take.bind fun _ => foresees_currentLexeme.bind fun _ => .ite ?_ ?_
      · exact (foresees_expectMark _).bind fun _ => foresees_pure _
      · exact expression.bind fun _ => (foresees_expectMark _).bind fun _ => foresees_pure _
    | elseWord => exact evaluated
  | mark symbol =>
    cases symbol with
    | openBrace => exact (foresees_block nested above).bind fun _ => foresees_pure _
    | semicolon => exact foresees_take.bind fun _ => foresees_pure _
    | _ => exact evaluated
  | identifier name => exact evaluated
  | integer value => exact evaluated
  | endOfInput => exact evaluated

/-- By induction on the nesting allowed: a level more adds the reader of one level. -/
theorem foresees_statement (above : bound ≤ larger) (bounded : length ≤ bound) :
    (allowance : Nat) →
      Foresees length (statement bound allowance) (statement larger allowance)
  | 0 => foresees_tooDeep
  | allowance + 1 =>
    foresees_statementOf above (foresees_expression above bounded allowance)
      (foresees_statement above bounded allowance)

end

/-! ## Items -/

section

variable {length bound larger : Nat}

/-- By induction on the rounds: each but the last takes a comma. -/
theorem foresees_parameterList : (bound larger : Nat) → {length : Nat} → bound ≤ larger →
    length ≤ bound → Foresees length (parameterList bound) (parameterList larger)
  | 0, larger, length, _, bounded => by
    intro tokens stop _ _ few
    obtain rfl := List.length_eq_zero_iff.mp (Nat.le_zero.mp (Nat.le_trans few bounded))
    exact foretells_end []
  | bound + 1, 0, length, above, _ => absurd above (Nat.not_succ_le_zero _)
  | bound + 1, larger + 1, length, above, bounded => by
    refine foresees_currentSpan.bind fun start => foresees_typeName?.bind fun type => ?_
    cases type with
    | none => exact foresees_fail _
    | some type =>
      exact foresees_identifier.bind fun _ =>
        foresees_acceptElse (by simp)
          (fun _ fewer => (foresees_parameterList bound larger (Nat.le_of_succ_le_succ above)
            (Nat.le_of_lt_succ (Nat.lt_of_lt_of_le fewer bounded))).bind fun _ => foresees_pure _)
          (foresees_pure _)

section

variable {α : Type} (yes no : Parser α) (tokens : List Token)

theorem bind_atVoidParameters (void : nextLexeme tokens = .keyword .voidType)
    (closed : nextLexeme tokens.tail = .mark .closeParen) :
    (do if ← atVoidParameters then yes else no : Parser α) tokens = yes tokens := by
  obtain ⟨span, rest, rfl⟩ := exists_of_nextLexeme void (by simp)
  obtain ⟨closing, others, rfl⟩ := exists_of_nextLexeme closed (by simp)
  rfl

theorem bind_atVoidParameters_of_not (other : ¬(nextLexeme tokens = .keyword .voidType ∧
    nextLexeme tokens.tail = .mark .closeParen)) :
    (do if ← atVoidParameters then yes else no : Parser α) tokens = no tokens := by
  rcases atVoidParameters_cases tokens with ⟨-, span, closing, others, rfl⟩ | looked
  · exact absurd ⟨rfl, rfl⟩ other
  · exact bind_of_ok looked _

end

/-- Of the word `void` nothing is known before the next token is there: either it is the
parenthesis, or the name of the parameter is still missing. -/
theorem foresees_parameters (above : bound ≤ larger) (bounded : length ≤ bound) :
    Foresees length (parameters bound) (parameters larger) := by
  refine foresees_acceptElse (by simp) (fun _ _ => foresees_pure []) ?_
  intro tokens stop unended ended few
  have emptied := (foresees_take.bind fun _ => foresees_take.bind fun _ =>
    foresees_pure ([] : List Parameter)) unended ended few
  have listed := ((foresees_parameterList bound larger above bounded).bind fun list =>
    (foresees_expectMark .closeParen).bind fun _ => foresees_pure list) unended ended few
  rcases tokens with _ | ⟨⟨lexeme, span⟩, _ | ⟨second, others⟩⟩
  · rw [bind_atVoidParameters_of_not _ _ ([] ++ [stop]) (by simp [ended])]
    exact listed.behind [] fun remains => absurd rfl remains
  · rw [bind_atVoidParameters_of_not _ _ ([(⟨lexeme, span⟩ : Token)] ++ [stop])
      (by simp [ended])]
    by_cases void : lexeme = .keyword .voidType
    · subst void
      rcases bound with _ | bound
      · exact absurd (Nat.le_trans few bounded) (by simp)
      have stopped : (parameterList (bound + 1) >>= fun list => do
          let _ ← expectMark .closeParen
          return list : Parser (List Parameter)) ([⟨.keyword .voidType, span⟩] ++ [stop]) =
          .error .incomplete := by
        obtain ⟨lexeme, place⟩ := stop
        obtain rfl : lexeme = .endOfInput := ended
        rfl
      rw [stopped]
      trivial
    · exact listed.behind [] fun _ more =>
        bind_atVoidParameters_of_not _ _ _ fun both => void both.1
  · by_cases void : lexeme = .keyword .voidType ∧ second.lexeme = .mark .closeParen
    · rw [bind_atVoidParameters _ _ (⟨lexeme, span⟩ :: second :: others ++ [stop]) void.1 void.2]
      exact emptied.behind [] fun _ more => bind_atVoidParameters _ _ _ void.1 void.2
    · rw [bind_atVoidParameters_of_not _ _ (⟨lexeme, span⟩ :: second :: others ++ [stop]) void]
      exact listed.behind [] fun _ more => bind_atVoidParameters_of_not _ _ _ void

theorem foresees_functionRest (above : bound ≤ larger) (bounded : length ≤ bound)
    (returns : TypeName) (name : String) (isExternal : Bool) (start : Span) :
    Foresees length (functionRest bound returns name isExternal start)
      (functionRest larger returns name isExternal start) := by
  refine (foresees_parameters above bounded).bind fun _ => foresees_current.bind fun _ =>
    .ite (.ite (foresees_fail _) ?_) ?_
  · exact (foresees_block (foresees_statement above bounded nestingLimit) above).bind
      fun _ => foresees_pure _
  · exact (foresees_expect _ _).bind fun _ => foresees_pure _

/-- The tokens are those of an external variable up to its name. -/
def NamesExternal (tokens : List Token) (name : String) (start : Span) : Prop :=
  ∃ type typed named, tokens = [⟨.keyword .externWord, start⟩,
    ⟨.keyword (TypeName.keyword type), typed⟩, ⟨.identifier name, named⟩]

/-- Behind the name of an external function nothing is read ahead. -/
theorem item_of_namesExternal {tokens : List Token} {stop : Token} {name : String} {start : Span}
    (named : NamesExternal tokens name start) (ended : stop.lexeme = .endOfInput) :
    item bound (tokens ++ [stop]) =
      .error (.invalid ((SyntaxProblem.externalVariable name).reportAt start)) := by
  obtain ⟨type, typed, place, rfl⟩ := named
  obtain ⟨lexeme, place⟩ := stop
  obtain rfl : lexeme = .endOfInput := ended
  cases type <;> rfl

theorem item_foretells (above : bound ≤ larger) (bounded : length ≤ bound) {tokens : List Token}
    {stop : Token} (unended : Unended tokens) (ended : stop.lexeme = .endOfInput)
    (few : tokens.length ≤ length) (known : ∀ name start, ¬NamesExternal tokens name start) :
    Foretells (item larger) tokens stop (item bound (tokens ++ [stop])) := by
  have suffix : ∀ {whole taken others : List Token}, whole = taken ++ others →
      Unended whole ∧ whole.length ≤ length → Unended others ∧ others.length ≤ length := by
    rintro _ taken others rfl ⟨unended, few⟩
    exact ⟨(unended_append.mp unended).2, Nat.le_trans (by simp) few⟩
  refine (foresees_currentSpan unended ended few).bind fun start _ all _ spanned => ?_
  obtain ⟨starts, same⟩ := Prod.mk.inj (Except.ok.inj spanned)
  obtain rfl := List.append_cancel_right same
  refine (foresees_accept _ unended ended few).bind fun isExternal _ typed split accepted => ?_
  have within := suffix split ⟨unended, few⟩
  refine (foresees_typeName? within.1 ended within.2).bind fun type _ named split typeRead => ?_
  have within := suffix split within
  cases type with
  | none => exact foresees_fail _ within.1 ended within.2
  | some type =>
  refine (foresees_identifier within.1 ended within.2).bind
    fun (name, place) _ called split nameRead => ?_
  have within := suffix split within
  refine (foresees_accept _ within.1 ended within.2).bind fun opened _ rest split calledRead => ?_
  have within := suffix split within
  refine Foretells.ite (fun _ => ?_) fun closed => Foretells.ite (fun external => ?_) fun _ => ?_
  · exact foresees_functionRest above bounded type name isExternal start within.1 ended within.2
  · -- Behind the name something follows, or the tokens would be known.
    refine .inr ⟨?_, fun _ => rfl⟩
    rintro rfl
    subst external
    obtain ⟨word, first⟩ := (accept_eq_true_iff (by simp)).mp accepted
    obtain ⟨typedAt, next⟩ := typeName?_eq_some_iff.mp typeRead
    obtain ⟨-, last⟩ := (accept_eq_false_iff (by simp)).mp (eq_false_of_ne_true closed ▸ calledRead)
    rw [next, identifier_eq_ok_iff.mp nameRead, last] at first
    obtain rfl : tokens = [_, _, _] := List.append_cancel_right first
    exact known name word ⟨type, typedAt, place, rfl⟩
  · exact ((foresees_initialValue? (foresees_expression above bounded nestingLimit)).bind
      fun _ => (foresees_expectMark _).bind fun _ => foresees_pure _) within.1 ended within.2

/-- The tokens are a program and an external variable up to its name. -/
def StopsAtExternal (tokens : List Token) (name : String) (start : Span) : Prop :=
  ∃ before items rest, tokens = before ++ rest ∧ SpellsProgram nestingLimit before items ∧
    NamesExternal rest name start

/-- An item behind a program is read, or refused, as it is alone. -/
theorem items_append_of_error {limit : Nat} {before rest : List Token} {program : List Item}
    {problem : SourceError} (spelled : SpellsProgram nestingLimit before program)
    (more : nextLexeme rest ≠ .endOfInput) (refused : item limit rest = .error problem)
    (limited : (before ++ rest).length ≤ limit) (enough : before.length < bound) :
    items limit bound (before ++ rest) = .error problem := by
  induction spelled generalizing bound with
  | nil =>
    rcases bound with _ | bound
    · exact absurd enough (Nat.not_lt_zero _)
    exact (congrFun (if_neg more) rest).trans (bind_of_error refused _)
  | @cons tokens others head tail first program inductionHypothesis =>
    have taken := List.length_pos_iff.mpr first.ne_nil
    rcases bound with _ | bound
    · exact absurd enough (Nat.not_lt_zero _)
    rw [List.append_assoc] at limited ⊢
    have fewer : others.length < bound := by
      simp only [List.length_append] at enough
      omega
    have behind := inductionHypothesis (Nat.le_trans (by simp) limited) fewer
    refine (congrFun (if_neg ?_) _).trans ((bind_of_ok (first.read limited) _).trans
      (bind_of_error behind _))
    exact first.unended.next_ne_end first.ne_nil _

/-- By induction on the rounds: each but the last takes an item. -/
theorem items_foretell {limit largerLimit : Nat} (aboveLimit : limit ≤ largerLimit) :
    (bound larger : Nat) → bound ≤ larger → ∀ {tokens : List Token} {stop : Token},
      Unended tokens → stop.lexeme = .endOfInput → tokens.length < limit →
      tokens.length ≤ bound → (∀ name start, ¬StopsAtExternal tokens name start) →
      Foretells (items largerLimit larger) tokens stop (items limit bound (tokens ++ [stop]))
  | 0, larger, _, tokens, stop, _, _, _, few, _ => by
    obtain rfl := List.length_eq_zero_iff.mp (Nat.le_zero.mp few)
    exact foretells_end []
  | _ + 1, 0, above, _, _, _, _, _, _, _ => absurd above (Nat.not_succ_le_zero _)
  | bound + 1, larger + 1, above, tokens, stop, unended, ended, limited, few, known => by
    refine (foresees_currentLexeme unended ended few).bind fun lexeme taken all split looked => ?_
    obtain ⟨same, rest⟩ := Prod.mk.inj (Except.ok.inj looked)
    obtain rfl := List.append_cancel_right rest
    refine Foretells.ite (fun _ => foresees_pure [] unended ended few) fun _ => ?_
    have notNamed : ∀ name start, ¬NamesExternal tokens name start :=
      fun name start named => known name start ⟨[], [], tokens, rfl, .nil, named⟩
    refine (item_foretells aboveLimit (Nat.le_of_lt limited) unended ended (Nat.le_refl _)
      notNamed).bind fun head _ others split read => ?_
    obtain ⟨taken, whole, spelled⟩ := item_reads (Nat.le_refl limit)
      (by rw [List.length_append]; exact limited) read
    obtain rfl : tokens = taken ++ others := List.append_cancel_right (by simpa using whole)
    have fewer := List.length_pos_iff.mpr spelled.ne_nil
    have others_known : ∀ name start, ¬StopsAtExternal others name start := by
      rintro name start ⟨before, program, behind, rfl, rests, named⟩
      exact known name start ⟨taken ++ before, head :: program, behind, by simp,
        .cons spelled rests, named⟩
    simp only [List.length_append] at limited few
    exact (items_foretell aboveLimit bound larger (Nat.le_of_succ_le_succ above)
      (unended_append.mp unended).2 ended (by omega) (by omega) others_known).bind
        fun _ _ _ split _ => foresees_pure _ (by simp_all) ended (Nat.le_refl _)

end

end IncrementalC.Syntax.Parser
