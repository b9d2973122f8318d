import IncrementalC.Syntax.Grammar

/-!
Contract: what each reader does with the lexeme at hand.

Owns:
- the lexeme at hand, sequencing, and for each reader of a single token the texts on which
  it succeeds;
- for each reader of a phrase, what remains to be read once its first tokens are known.

Does not own: which trees the phrases spell.
-/

namespace IncrementalC.Syntax.Parser

/-- The lexeme at the front. -/
def nextLexeme (tokens : List Token) : Lexeme :=
  (tokens.headD ⟨.endOfInput, .nowhere⟩).lexeme

@[simp] theorem nextLexeme_cons (token : Token) (rest : List Token) :
    nextLexeme (token :: rest) = token.lexeme := rfl

/-- A lexeme that is not the end of input is that of a token. -/
theorem exists_of_nextLexeme {tokens : List Token} {lexeme : Lexeme}
    (next : nextLexeme tokens = lexeme) (more : lexeme ≠ .endOfInput) :
    ∃ span rest, tokens = ⟨lexeme, span⟩ :: rest := by
  subst next
  cases tokens with
  | nil => exact absurd rfl more
  | cons token rest => exact ⟨token.span, rest, rfl⟩

section

variable {α β : Type} {tokens rest : List Token}

theorem bind_eq_ok_iff {reader : Parser α} {next : α → Parser β} {result : β} :
    (reader >>= next) tokens = .ok (result, rest) ↔
      ∃ value between, reader tokens = .ok (value, between) ∧
        next value between = .ok (result, rest) := by
  simp only [bind]
  cases reader tokens with
  | error problem => simp
  | ok finished => simp [Prod.ext_iff, and_assoc]

/-- A reader that succeeds is followed by the next one. -/
theorem bind_of_ok {reader : Parser α} {value : α} {between : List Token}
    (read : reader tokens = .ok (value, between)) (next : α → Parser β) :
    (reader >>= next) tokens = next value between := by
  simp only [bind, read]

theorem bind_current {next : Token → Parser β} :
    (current >>= next) tokens = next (tokens.headD ⟨.endOfInput, .nowhere⟩) tokens := rfl

theorem bind_currentLexeme {next : Lexeme → Parser β} :
    (currentLexeme >>= next) tokens = next (nextLexeme tokens) tokens := rfl

theorem pure_eq_ok_iff {value result : α} :
    (pure value : Parser α) tokens = .ok (result, rest) ↔ value = result ∧ tokens = rest := by
  change Except.ok (value, tokens) = _ ↔ _
  simp

theorem reject_ne_ok {problem : SyntaxProblem} {span : Span} {result : α} :
    (reject problem span : Parser α) tokens ≠ .ok (result, rest) := by
  intro absent
  cases absent

theorem fail_ne_ok {problem : SyntaxProblem} {result : α} :
    (fail problem : Parser α) tokens ≠ .ok (result, rest) := by
  intro failed
  by_cases ended : nextLexeme tokens = .endOfInput
  · have stopped : (fail problem : Parser α) tokens = .error .incomplete :=
      congrFun (if_pos ended) tokens
    cases stopped.symm.trans failed
  · have stopped : (fail problem : Parser α) tokens = reject problem _ tokens :=
      congrFun (if_neg ended) tokens
    exact reject_ne_ok (stopped.symm.trans failed)

theorem tooDeep_ne_ok {result : α} : (tooDeep : Parser α) tokens ≠ .ok (result, rest) := by
  intro failed
  obtain ⟨_, _, -, failed⟩ := bind_eq_ok_iff.mp failed
  exact reject_ne_ok failed

end

/-! ## Single tokens -/

variable {tokens rest : List Token}

theorem take_cons {token : Token} (more : token.lexeme ≠ .endOfInput) (rest : List Token) :
    take (token :: rest) = .ok (token, rest) := if_neg more

theorem accept_cons {lexeme : Lexeme} (more : lexeme ≠ .endOfInput) (span : Span)
    (rest : List Token) : accept lexeme (⟨lexeme, span⟩ :: rest) = .ok (true, rest) := by
  change (if lexeme = lexeme then _ else _ : Parser Bool) (⟨lexeme, span⟩ :: rest) = _
  rw [if_pos rfl, bind_of_ok (take_cons more rest)]
  rfl

theorem accept_of_ne {lexeme : Lexeme} (differs : nextLexeme tokens ≠ lexeme) :
    accept lexeme tokens = .ok (false, tokens) := by
  change (if nextLexeme tokens = lexeme then _ else _ : Parser Bool) tokens = _
  rw [if_neg differs]
  rfl

/-- A lexeme is accepted exactly if it stands at the front. -/
theorem accept_eq_ok_iff {lexeme : Lexeme} (more : lexeme ≠ .endOfInput) {accepted : Bool} :
    accept lexeme tokens = .ok (accepted, rest) ↔
      (accepted = true ∧ ∃ span, tokens = ⟨lexeme, span⟩ :: rest) ∨
        (accepted = false ∧ nextLexeme tokens ≠ lexeme ∧ tokens = rest) := by
  by_cases next : nextLexeme tokens = lexeme
  · obtain ⟨span, others, rfl⟩ := exists_of_nextLexeme next more
    rw [accept_cons more]
    simp [eq_comm]
  · rw [accept_of_ne next]
    constructor
    · rintro ⟨⟩
      exact .inr ⟨rfl, next, rfl⟩
    · rintro (⟨-, span, rfl⟩ | ⟨rfl, -, rfl⟩)
      · exact absurd rfl next
      · rfl

theorem accept_eq_true_iff {lexeme : Lexeme} (more : lexeme ≠ .endOfInput) :
    accept lexeme tokens = .ok (true, rest) ↔ ∃ span, tokens = ⟨lexeme, span⟩ :: rest := by
  simp [accept_eq_ok_iff more]

theorem accept_eq_false_iff {lexeme : Lexeme} (more : lexeme ≠ .endOfInput) :
    accept lexeme tokens = .ok (false, rest) ↔ nextLexeme tokens ≠ lexeme ∧ tokens = rest := by
  simp [accept_eq_ok_iff more]

theorem expect_eq_ok_iff {symbol : Mark} {expectation : Expectation} {span : Span} :
    expect symbol expectation tokens = .ok (span, rest) ↔
      tokens = ⟨.mark symbol, span⟩ :: rest := by
  change (if nextLexeme tokens = .mark symbol then _ else _ : Parser Span) tokens = _ ↔ _
  by_cases next : nextLexeme tokens = .mark symbol
  · rw [if_pos next]
    obtain ⟨found, others, rfl⟩ := exists_of_nextLexeme next (by simp)
    rw [bind_of_ok (take_cons (by simp) others), pure_eq_ok_iff]
    simp
  · rw [if_neg next]
    constructor
    · exact fun failed => absurd failed fail_ne_ok
    · rintro rfl
      exact absurd rfl next

theorem expectMark_eq_ok_iff {symbol : Mark} {span : Span} :
    expectMark symbol tokens = .ok (span, rest) ↔ tokens = ⟨.mark symbol, span⟩ :: rest :=
  expect_eq_ok_iff

/-- A token that is no name is refused as one. -/
theorem identifier_cons_of_ne {lexeme : Lexeme} (unnamed : ∀ name, lexeme ≠ .identifier name)
    (span : Span) (rest : List Token) :
    identifier (⟨lexeme, span⟩ :: rest) =
      fail (.expected .identifier lexeme) (⟨lexeme, span⟩ :: rest) := by
  cases lexeme with
  | identifier name => exact absurd rfl (unnamed name)
  | keyword word => rfl
  | integer value => rfl
  | mark symbol => rfl
  | endOfInput => rfl

theorem identifier_eq_ok_iff {name : String} {span : Span} :
    identifier tokens = .ok ((name, span), rest) ↔
      tokens = ⟨.identifier name, span⟩ :: rest := by
  constructor
  · intro read
    rcases tokens with _ | ⟨⟨lexeme, found⟩, others⟩
    · cases read
    · by_cases named : ∃ written, lexeme = .identifier written
      · obtain ⟨written, rfl⟩ := named
        cases read
        rfl
      · rw [identifier_cons_of_ne (not_exists.mp named)] at read
        exact absurd read fail_ne_ok
  · rintro rfl
    rfl

theorem typeName?_cons (type : TypeName) (span : Span) (rest : List Token) :
    typeName? (⟨.keyword type.keyword, span⟩ :: rest) = .ok (some type, rest) := by
  cases type <;> rfl

/-- A type is read exactly if its word stands at the front. -/
theorem typeName?_eq_some_iff {type : TypeName} :
    typeName? tokens = .ok (some type, rest) ↔
      ∃ span, tokens = ⟨.keyword type.keyword, span⟩ :: rest := by
  constructor
  · intro read
    rcases tokens with _ | ⟨⟨lexeme, span⟩, others⟩
    · cases read
    · cases lexeme with
      | keyword word =>
        cases word
        case intType =>
          cases read
          exact ⟨span, rfl⟩
        case voidType =>
          cases read
          exact ⟨span, rfl⟩
        case autoType =>
          cases read
          exact ⟨span, rfl⟩
        all_goals cases read
      | identifier name => cases read
      | integer value => cases read
      | mark symbol => cases read
      | endOfInput => cases read
  · rintro ⟨span, rfl⟩
    exact typeName?_cons type span rest

/-- Whatever stands before a closing mark is read up to it. -/
theorem closed_eq_ok_iff {α β : Type} {reader : Parser α} {symbol : Mark}
    {finish : α → Span → β} {result : β} :
    (do
      let value ← reader
      let closing ← expectMark symbol
      return finish value closing : Parser β) tokens = .ok (result, rest) ↔
      ∃ value closing, reader tokens = .ok (value, ⟨.mark symbol, closing⟩ :: rest) ∧
        finish value closing = result := by
  constructor
  · intro read
    obtain ⟨value, between, before, read⟩ := bind_eq_ok_iff.mp read
    obtain ⟨closing, after, closed, read⟩ := bind_eq_ok_iff.mp read
    obtain ⟨finished, rfl⟩ := pure_eq_ok_iff.mp read
    rw [expectMark_eq_ok_iff.mp closed] at before
    exact ⟨value, closing, before, finished⟩
  · rintro ⟨value, closing, before, rfl⟩
    rw [bind_of_ok before, bind_of_ok (expectMark_eq_ok_iff.mpr rfl)]
    rfl

/-! ## Operators -/

section

variable {level : OperatorLevel} {reader : Parser Expression} {left : Expression}

theorem mark_of_operatorOf? {lexeme : Lexeme} {operator : BinaryOperator}
    (denotes : operatorOf? level lexeme = some operator) :
    ∃ symbol, lexeme = .mark symbol ∧ level symbol = some operator := by
  cases lexeme with
  | mark symbol => exact ⟨symbol, rfl, denotes⟩
  | keyword word => cases denotes
  | identifier name => cases denotes
  | integer value => cases denotes
  | endOfInput => cases denotes

theorem leftAssociative_of_none (ends : operatorOf? level (nextLexeme tokens) = none)
    (bound : Nat) : leftAssociative level reader bound left tokens = .ok (left, tokens) := by
  cases bound with
  | zero => rfl
  | succ bound =>
    rw [leftAssociative, bind_currentLexeme, ends]
    rfl

theorem leftAssociative_operator {symbol : Mark} {operator : BinaryOperator}
    (denotes : level symbol = some operator) (bound : Nat) (sign : Span) (rest : List Token) :
    leftAssociative level reader (bound + 1) left (⟨.mark symbol, sign⟩ :: rest) =
      (do
        let right ← reader
        leftAssociative level reader bound
          (.binary operator left right (left.span.through right.span)) : Parser Expression)
        rest := by
  have found : operatorOf? level (nextLexeme (⟨.mark symbol, sign⟩ :: rest)) = some operator :=
    denotes
  rw [leftAssociative, bind_currentLexeme, found]
  exact bind_of_ok (take_cons (by simp) rest) _

end

/-! ## Operands -/

section

variable {bound : Nat} {expression nested base : Parser Expression}

theorem operand_of_none (plain : unaryOperatorOf? (nextLexeme tokens) = none) :
    operand nested base tokens = base tokens := by
  have plain : unaryOperatorOf? (tokens.headD ⟨.endOfInput, .nowhere⟩).lexeme = none := plain
  simp only [operand, bind_current, plain]

theorem unaryOperatorOf?_eq_some {lexeme : Lexeme} {operator : UnaryOperator}
    (found : unaryOperatorOf? lexeme = some operator) :
    (lexeme = .mark .minus ∧ operator = .negate) ∨ (lexeme = .mark .bang ∧ operator = .not) := by
  unfold unaryOperatorOf? at found
  split at found
  · cases found
    exact .inl ⟨rfl, rfl⟩
  · cases found
    exact .inr ⟨rfl, rfl⟩
  · cases found

theorem operand_operator {lexeme : Lexeme} {operator : UnaryOperator}
    (denotes : unaryOperatorOf? lexeme = some operator) (more : lexeme ≠ .endOfInput)
    (sign : Span) (rest : List Token) :
    operand nested base (⟨lexeme, sign⟩ :: rest) =
      (do
        let inner ← nested
        return .unary operator inner (sign.through inner.span) : Parser Expression) rest := by
  simp only [operand, bind_current, List.headD_cons, denotes]
  exact bind_of_ok (take_cons more rest) _

/-- The lexemes that an operand without unary operators can start with. -/
def startsPrimary : Lexeme → Bool
  | .integer _ => true
  | .identifier _ => true
  | .mark .openParen => true
  | _ => false

/-- The lexemes that an expression can start with. -/
def startsExpression (lexeme : Lexeme) : Bool :=
  startsPrimary lexeme || (unaryOperatorOf? lexeme).isSome

theorem unaryOperatorOf?_of_startsPrimary {lexeme : Lexeme}
    (starts : startsPrimary lexeme = true) : unaryOperatorOf? lexeme = none := by
  cases lexeme with
  | mark symbol => cases symbol <;> first | rfl | cases starts
  | keyword word => cases starts
  | endOfInput => cases starts
  | integer value => rfl
  | identifier name => rfl

theorem ne_closeParen_of_startsExpression {lexeme : Lexeme}
    (starts : startsExpression lexeme = true) : lexeme ≠ .mark .closeParen := by
  rintro rfl
  cases starts

theorem ne_semicolon_of_startsExpression {lexeme : Lexeme}
    (starts : startsExpression lexeme = true) : lexeme ≠ .mark .semicolon := by
  rintro rfl
  cases starts

theorem primary_ne_ok (other : startsPrimary (nextLexeme tokens) = false)
    {result : Expression} : primary bound expression tokens ≠ .ok (result, rest) := by
  have failed : ∃ problem : SyntaxProblem,
      primary bound expression tokens = (fail problem : Parser Expression) tokens := by
    rcases tokens with _ | ⟨⟨lexeme, span⟩, others⟩
    · exact ⟨.expected .expression .endOfInput, rfl⟩
    · cases lexeme with
      | keyword word => exact ⟨_, rfl⟩
      | mark symbol => cases symbol <;> first | exact ⟨_, rfl⟩ | cases other
      | integer value => cases other
      | identifier name => cases other
      | endOfInput => exact ⟨.expected .expression .endOfInput, rfl⟩
  obtain ⟨problem, failed⟩ := failed
  rw [failed]
  exact fail_ne_ok

theorem primary_name {name : String} {span : Span}
    (uncalled : nextLexeme rest ≠ .mark .openParen) :
    primary bound expression (⟨.identifier name, span⟩ :: rest) =
      .ok (.name name span, rest) :=
  bind_of_ok (accept_of_ne uncalled) _

theorem primary_call {callee : String} {start opening : Span}
    (given : nextLexeme rest ≠ .mark .closeParen) :
    primary bound expression
      (⟨.identifier callee, start⟩ :: ⟨.mark .openParen, opening⟩ :: rest) =
      (do
        let values ← commaSeparated expression bound
        let closing ← expectMark .closeParen
        return .call callee values (start.through closing) : Parser Expression) rest :=
  congrFun (if_neg given) rest

theorem primary_group (opening : Span) (rest : List Token) :
    primary bound expression (⟨.mark .openParen, opening⟩ :: rest) =
      (do
        let inner ← expression
        let _ ← expectMark .closeParen
        return inner : Parser Expression) rest := rfl

end

/-! ## Statements -/

section

variable {bound : Nat} {expression : Parser Expression} {nested : Parser Statement}

/-- The lexemes that choose among the statements other than an expression. -/
def startsOther : Lexeme → Bool
  | .keyword .elseWord => false
  | .keyword _ => true
  | .mark .openBrace => true
  | .mark .semicolon => true
  | _ => false

theorem startsOther_of_startsExpression {lexeme : Lexeme}
    (starts : startsExpression lexeme = true) : startsOther lexeme = false := by
  cases lexeme with
  | mark symbol => cases symbol <;> first | rfl | exact absurd starts (by decide)
  | keyword word => cases starts
  | endOfInput => cases starts
  | integer value => rfl
  | identifier name => rfl

theorem statementOf_declaration {type : TypeName} (stated : type ≠ .auto) (start : Span)
    (rest : List Token) :
    statementOf bound expression nested (⟨.keyword type.keyword, start⟩ :: rest) =
      (do
        let (name, _) ← identifier
        let initial ← initialValue? expression
        let closing ← expectMark .semicolon
        return .declare type name initial (start.through closing) : Parser Statement) rest := by
  cases type with
  | int => rfl
  | void => rfl
  | auto => exact absurd rfl stated

theorem statementOf_if (start : Span) (rest : List Token) :
    statementOf bound expression nested (⟨.keyword .ifWord, start⟩ :: rest) =
      (do
        let test ← condition expression
        let whenTrue ← nested
        if ← accept (.keyword .elseWord) then
          let whenFalse ← nested
          return .choose test (branchBody whenTrue) (branchBody whenFalse)
        else
          return .choose test (branchBody whenTrue) [] : Parser Statement) rest := rfl

theorem statementOf_while (start : Span) (rest : List Token) :
    statementOf bound expression nested (⟨.keyword .whileWord, start⟩ :: rest) =
      (do
        let test ← condition expression
        let body ← nested
        return .loop test (branchBody body) : Parser Statement) rest := rfl

theorem statementOf_returnValue {start : Span}
    (given : nextLexeme rest ≠ .mark .semicolon) :
    statementOf bound expression nested (⟨.keyword .returnWord, start⟩ :: rest) =
      (do
        let value ← expression
        let closing ← expectMark .semicolon
        return .leave (some value) (start.through closing) : Parser Statement) rest :=
  congrFun (if_neg given) rest

theorem statementOf_block (opening : Span) (rest : List Token) :
    statementOf bound expression nested (⟨.mark .openBrace, opening⟩ :: rest) =
      (do return .block (← statementsToClose nested bound) : Parser Statement) rest := rfl

theorem statementOf_expression (plain : startsOther (nextLexeme tokens) = false) :
    statementOf bound expression nested tokens =
      (do
        let value ← expression
        let _ ← expectMark .semicolon
        return .evaluate value : Parser Statement) tokens := by
  rcases tokens with _ | ⟨⟨lexeme, span⟩, rest⟩
  · rfl
  · cases lexeme with
    | keyword word => cases word <;> first | rfl | cases plain
    | mark symbol => cases symbol <;> first | rfl | cases plain
    | integer value => rfl
    | identifier name => rfl
    | endOfInput => rfl

end

/-! ## Items -/

/-- The type at the front, if one stands there. -/
theorem typeName?_none_or_some {type : Option TypeName}
    (read : typeName? tokens = .ok (type, rest)) :
    type = none ∨ ∃ stated : TypeName, ∃ span, type = some stated ∧
      tokens = ⟨.keyword stated.keyword, span⟩ :: rest := by
  rcases type with _ | stated
  · exact .inl rfl
  · obtain ⟨span, rfl⟩ := typeName?_eq_some_iff.mp read
    exact .inr ⟨stated, span, rfl, rfl⟩

theorem atVoidParameters_cases (tokens : List Token) :
    (atVoidParameters tokens = .ok (true, tokens) ∧
      ∃ span closing others, tokens =
        ⟨.keyword .voidType, span⟩ :: ⟨.mark .closeParen, closing⟩ :: others) ∨
    atVoidParameters tokens = .ok (false, tokens) := by
  unfold atVoidParameters
  split
  · exact .inl ⟨rfl, _, _, _, rfl⟩
  · exact .inr rfl

theorem atVoidParameters_parameter (type : TypeName) (name : String) (start stop : Span)
    (rest : List Token) :
    atVoidParameters (⟨.keyword type.keyword, start⟩ :: ⟨.identifier name, stop⟩ :: rest) =
      .ok (false, ⟨.keyword type.keyword, start⟩ :: ⟨.identifier name, stop⟩ :: rest) := by
  cases type <;> rfl

theorem item_function {bound : Nat} (type : TypeName) (name : String)
    (start named opening : Span) (rest : List Token) :
    item bound (⟨.keyword type.keyword, start⟩ :: ⟨.identifier name, named⟩ ::
        ⟨.mark .openParen, opening⟩ :: rest) =
      functionRest bound type name false start rest := by
  cases type <;> rfl

theorem item_external {bound : Nat} (type : TypeName) (name : String)
    (start typed named opening : Span) (rest : List Token) :
    item bound (⟨.keyword .externWord, start⟩ :: ⟨.keyword type.keyword, typed⟩ ::
        ⟨.identifier name, named⟩ :: ⟨.mark .openParen, opening⟩ :: rest) =
      functionRest bound type name true start rest := by
  cases type <;> rfl

theorem item_variable {bound : Nat} {type : TypeName} {name : String} {start named : Span}
    (uncalled : nextLexeme rest ≠ .mark .openParen) :
    item bound (⟨.keyword type.keyword, start⟩ :: ⟨.identifier name, named⟩ :: rest) =
      (do
        let initial ← initialValue? (expression bound nestingLimit)
        let closing ← expectMark .semicolon
        return .variable type name initial (start.through closing) : Parser Item) rest := by
  cases type <;> exact bind_of_ok (accept_of_ne uncalled) _

end IncrementalC.Syntax.Parser
