import IncrementalC.Proofs.Syntax.Grammar

/-!
Contract: a reader takes the phrases of its kind, whatever follows them, as long as what
follows cannot continue the phrase.

Owns:
- what may follow each kind of phrase;
- one lemma for each kind of phrase, up to whole programs.

Does not own: that only phrases are taken.
-/

namespace IncrementalC.Syntax

open Syntax.Parser

/-! ## What may follow -/

/-- The lexeme continues no operators of the given precedences. -/
def EndsOperators (levels : List OperatorLevel) (lexeme : Lexeme) : Prop :=
  lexeme ≠ .mark .openParen ∧ ∀ level ∈ levels, operatorOf? level lexeme = none

/-- The lexeme continues no expression. -/
def EndsExpression (lexeme : Lexeme) : Prop :=
  EndsOperators operatorLevels lexeme ∧ lexeme ≠ .mark .assign

/-- No operator is of two precedences, and none is an opening parenthesis. -/
def Separate (levels : List OperatorLevel) : Prop :=
  levels.Pairwise (fun loose tight => ∀ symbol, loose symbol ≠ none → tight symbol = none) ∧
    ∀ level ∈ levels, level .openParen = none

theorem separate_operatorLevels : Separate operatorLevels := by
  constructor
  · simp only [operatorLevels, List.pairwise_cons, List.forall_mem_cons, List.not_mem_nil]
    refine ⟨⟨?_, ?_, ?_, ?_, ?_, nofun⟩, ⟨?_, ?_, ?_, ?_, nofun⟩, ⟨?_, ?_, ?_, nofun⟩,
      ⟨?_, ?_, nofun⟩, ⟨?_, nofun⟩, nofun, .nil⟩
    all_goals
      intro symbol
      cases symbol <;> decide
  · simp [operatorLevels]

theorem endsOperators_assign : EndsOperators operatorLevels (.mark .assign) := by
  simp [EndsOperators, operatorLevels, operatorOf?]

theorem endsExpression_closeParen : EndsExpression (.mark .closeParen) := by
  simp [EndsExpression, EndsOperators, operatorLevels, operatorOf?]

theorem endsExpression_comma : EndsExpression (.mark .comma) := by
  simp [EndsExpression, EndsOperators, operatorLevels, operatorOf?]

theorem endsExpression_semicolon : EndsExpression (.mark .semicolon) := by
  simp [EndsExpression, EndsOperators, operatorLevels, operatorOf?]

/-- An operator ends the operators of the tighter precedences. -/
theorem Separate.ends {level : OperatorLevel} {levels : List OperatorLevel}
    (separate : Separate (level :: levels)) {symbol : Mark} {operator : BinaryOperator}
    (denotes : level symbol = some operator) : EndsOperators levels (.mark symbol) := by
  obtain ⟨apart, unopened⟩ := separate
  constructor
  · rintro ⟨⟩
    rw [unopened level List.mem_cons_self] at denotes
    cases denotes
  · intro tight member
    exact (List.pairwise_cons.mp apart).1 tight member symbol (by simp [denotes])

theorem Separate.tail {level : OperatorLevel} {levels : List OperatorLevel}
    (separate : Separate (level :: levels)) : Separate levels :=
  ⟨(List.pairwise_cons.mp separate.1).2,
    fun tight member => separate.2 tight (List.mem_cons_of_mem level member)⟩

/-! ## Expressions -/

section

variable {bound allowance : Nat}

/-- `tokens` are read as operators of the given precedences. If there is a loosest one, they
are read so even if another of its operators follows, with which reading continues. -/
def ReadAsOperators (bound allowance : Nat) (levels : List OperatorLevel) (tokens : List Token)
    (result : Expression) : Prop :=
  ∀ rest : List Token, (tokens ++ rest).length ≤ bound →
    EndsOperators levels.tail (nextLexeme rest) →
      match levels with
      | [] => unary bound allowance (tokens ++ rest) = .ok (result, rest)
      | level :: tighter => ∃ rounds, rest.length ≤ rounds ∧
          binaryLevels bound (unary bound allowance) (level :: tighter) (tokens ++ rest) =
            leftAssociative level (binaryLevels bound (unary bound allowance) tighter) rounds
              result rest

theorem ReadAsOperators.read {levels : List OperatorLevel} {tokens rest : List Token}
    {result : Expression} (readAs : ReadAsOperators bound allowance levels tokens result)
    (short : (tokens ++ rest).length ≤ bound) (ends : EndsOperators levels (nextLexeme rest)) :
    binaryLevels bound (unary bound allowance) levels (tokens ++ rest) = .ok (result, rest) := by
  cases levels with
  | nil => exact readAs rest short ends
  | cons level tighter =>
    obtain ⟨uncalled, none⟩ := ends
    obtain ⟨rounds, -, read⟩ := readAs rest short
      ⟨uncalled, fun tight member => none tight (List.mem_cons_of_mem level member)⟩
    rw [read, leftAssociative_of_none (none level List.mem_cons_self)]

theorem unary_of_startsPrimary {tokens : List Token}
    (starts : startsPrimary (nextLexeme tokens) = true) :
    unary bound allowance tokens = primary bound (expression bound allowance) tokens := by
  have plain := unaryOperatorOf?_of_startsPrimary starts
  cases allowance with
  | zero => exact operand_of_none plain
  | succ allowance => exact operand_of_none plain

mutual

/-- By induction on the phrase, together with the phrases it is made of. -/
theorem SpellsExpression.read {allowance : Nat} {tokens : List Token} {result : Expression} :
    SpellsExpression allowance tokens result → ∀ {bound : Nat} {rest : List Token},
      (tokens ++ rest).length ≤ bound → EndsExpression (nextLexeme rest) →
      expression bound allowance (tokens ++ rest) = .ok (result, rest)
  | .value operators, bound, rest, short, ends => by
    have target := (operators.readAs separate_operatorLevels).read short ends.1
    exact (bind_of_ok target _).trans (bind_of_ok (accept_of_ne ends.2) _)
  | .assign assigned assigns, bound, rest, short, ends => by
    rw [List.append_assoc, List.cons_append] at short ⊢
    have target := (assigned.readAs separate_operatorLevels).read short endsOperators_assign
    have value := assigns.read (Nat.le_trans (by simp; omega) short) ends
    exact (bind_of_ok target _).trans
      ((bind_of_ok (accept_cons (by simp) _ _) _).trans (bind_of_ok value _))

theorem SpellsOperators.readAs {allowance : Nat} {levels : List OperatorLevel}
    {tokens : List Token} {result : Expression} :
    SpellsOperators allowance levels tokens result → ∀ {bound : Nat}, Separate levels →
      ReadAsOperators bound allowance levels tokens result
  | .operand single, _, _ => fun _ short ends => single.read short ends.1
  | .tighter operators, bound, separate => fun _ short ends => by
    refine ⟨bound, Nat.le_trans (by simp) short, ?_⟩
    exact bind_of_ok ((operators.readAs separate.tail).read short ends) _
  | .apply first denotes second, bound, separate => fun rest short ends => by
    rw [List.append_assoc, List.cons_append] at short ⊢
    obtain ⟨rounds, enough, before⟩ := first.readAs separate _ short (separate.ends denotes)
    rcases rounds with _ | rounds
    · simp at enough
    have after := (second.readAs separate.tail).read (Nat.le_trans (by simp; omega) short) ends
    refine ⟨rounds, Nat.le_trans (by simp) (Nat.le_of_succ_le_succ enough), ?_⟩
    rw [before, leftAssociative_operator denotes, bind_of_ok after]

theorem SpellsOperand.read {allowance : Nat} {tokens : List Token} {result : Expression} :
    SpellsOperand allowance tokens result → ∀ {bound : Nat} {rest : List Token},
      (tokens ++ rest).length ≤ bound → nextLexeme rest ≠ .mark .openParen →
      unary bound allowance (tokens ++ rest) = .ok (result, rest)
  | .plain primary, bound, rest, short, ends => by
    rw [unary_of_startsPrimary (primary.starts rest)]
    exact primary.read short ends
  | .negate operand, bound, rest, short, ends => by
    have inner := operand.read (Nat.le_of_succ_le short) ends
    exact (operand_operator rfl (by simp) _ _).trans (bind_of_ok inner _)
  | .not operand, bound, rest, short, ends => by
    have inner := operand.read (Nat.le_of_succ_le short) ends
    exact (operand_operator rfl (by simp) _ _).trans (bind_of_ok inner _)

theorem SpellsPrimary.read {allowance : Nat} {tokens : List Token} {result : Expression} :
    SpellsPrimary allowance tokens result → ∀ {bound : Nat} {rest : List Token},
      (tokens ++ rest).length ≤ bound → nextLexeme rest ≠ .mark .openParen →
      primary bound (expression bound allowance) (tokens ++ rest) = .ok (result, rest)
  | .integer, _, _, _, _ => rfl
  | .name, _, _, _, uncalled => primary_name uncalled
  | .call, _, _, _, _ => rfl
  | .callWith given, bound, rest, short, _ => by
    simp only [List.cons_append, List.append_assoc, List.nil_append] at short ⊢
    have shorter := Nat.le_of_succ_le (Nat.le_of_succ_le short)
    have values := given.read shorter shorter
    rw [primary_call (ne_closeParen_of_startsExpression (given.starts _))]
    exact closed_eq_ok_iff.mpr ⟨_, _, values, rfl⟩
  | .group inside, bound, rest, short, _ => by
    simp only [List.cons_append, List.append_assoc, List.nil_append] at short ⊢
    have inner := inside.read (Nat.le_of_succ_le short) endsExpression_closeParen
    rw [primary_group]
    exact closed_eq_ok_iff.mpr ⟨_, _, inner, rfl⟩

theorem SpellsArguments.read {allowance : Nat} {tokens : List Token}
    {values : List Expression} :
    SpellsArguments allowance tokens values → ∀ {bound rounds : Nat} {rest : List Token}
      {closing : Span}, (tokens ++ ⟨.mark .closeParen, closing⟩ :: rest).length ≤ bound →
      (tokens ++ ⟨.mark .closeParen, closing⟩ :: rest).length ≤ rounds →
      commaSeparated (expression bound allowance) rounds
        (tokens ++ ⟨.mark .closeParen, closing⟩ :: rest) =
        .ok (values, ⟨.mark .closeParen, closing⟩ :: rest)
  | .last inside, bound, 0, rest, closing, short, enough => by simp at enough
  | .last inside, bound, rounds + 1, rest, closing, short, enough => by
    have value := inside.read short endsExpression_closeParen
    exact (bind_of_ok value _).trans (bind_of_ok (accept_of_ne (by simp)) _)
  | .more inside others, bound, 0, rest, closing, short, enough => by simp at enough
  | .more inside others, bound, rounds + 1, rest, closing, short, enough => by
    rw [List.append_assoc, List.cons_append] at short enough ⊢
    have value := inside.read short endsExpression_comma
    refine (bind_of_ok value _).trans
      ((bind_of_ok (accept_cons (by simp) _ _) _).trans (bind_of_ok (others.read ?_ ?_) _))
    · exact Nat.le_trans (by simp; omega) short
    · exact Nat.le_of_succ_le_succ (Nat.le_trans (by simp) enough)

end

theorem SpellsInitial.read {tokens rest : List Token} {initial : Option Expression}
    (initialized : SpellsInitial allowance tokens initial)
    (short : (tokens ++ rest).length ≤ bound) (ends : EndsExpression (nextLexeme rest)) :
    initialValue? (expression bound allowance) (tokens ++ rest) = .ok (initial, rest) := by
  cases initialized with
  | none => exact bind_of_ok (accept_of_ne ends.2) _
  | some inside =>
    have value := inside.read (Nat.le_of_succ_le short) ends
    exact (bind_of_ok (accept_cons (by simp) _ _) _).trans (bind_of_ok value _)

theorem SpellsCondition.read {tokens rest : List Token} {value : Expression}
    (tested : SpellsCondition allowance tokens value)
    (short : (tokens ++ rest).length ≤ bound) :
    condition (expression bound allowance) (tokens ++ rest) = .ok (value, rest) := by
  cases tested with
  | parentheses inside =>
    simp only [List.cons_append, List.append_assoc, List.nil_append] at short ⊢
    have inner := inside.read (Nat.le_of_succ_le short) endsExpression_closeParen
    exact (bind_of_ok (expectMark_eq_ok_iff.mpr rfl) _).trans
      (closed_eq_ok_iff.mpr ⟨_, _, inner, rfl⟩)

end

/-! ## Statements -/

theorem SpellsStatements.next_ne_else {allowance : Nat} {tokens : List Token}
    {body : List Statement} (statements : SpellsStatements allowance tokens body)
    (closing : Span) (rest : List Token) :
    nextLexeme (tokens ++ ⟨.mark .closeBrace, closing⟩ :: rest) ≠ .keyword .elseWord := by
  cases statements with
  | nil => simp
  | cons first others =>
    rw [List.append_assoc]
    exact ne_else_of_startsStatement (first.starts _)

mutual

/-- By induction on the statement, together with the statements in it. -/
theorem SpellsStatement.read {allowance : Nat} {dangling : Bool} {tokens : List Token}
    {result : Statement} :
    SpellsStatement allowance dangling tokens result → ∀ {bound : Nat} {rest : List Token},
      (tokens ++ rest).length ≤ bound →
      (dangling = true → nextLexeme rest ≠ .keyword .elseWord) →
      statement bound allowance (tokens ++ rest) = .ok (result, rest)
  | .declare stated initialized, bound, rest, short, _ => by
    simp only [List.cons_append, List.append_assoc, List.nil_append] at short ⊢
    have initial := initialized.read (Nat.le_of_succ_le (Nat.le_of_succ_le short))
      endsExpression_semicolon
    exact (statementOf_declaration stated _ _).trans
      ((bind_of_ok (identifier_eq_ok_iff.mpr rfl) _).trans
        (closed_eq_ok_iff.mpr ⟨_, _, initial, rfl⟩))
  | .evaluate inside, bound, rest, short, _ => by
    simp only [List.append_assoc, List.cons_append, List.nil_append] at short ⊢
    have value := inside.read short endsExpression_semicolon
    exact (statementOf_expression (startsOther_of_startsExpression (inside.starts _))).trans
      (closed_eq_ok_iff.mpr ⟨_, _, value, rfl⟩)
  | .choose tested branch, bound, rest, short, ends => by
    simp only [List.cons_append, List.append_assoc] at short ⊢
    have test := tested.read (Nat.le_of_succ_le short)
    have whenTrue := branch.read (Nat.le_trans (by simp; omega) short) fun _ => ends rfl
    exact (statementOf_if _ _).trans ((bind_of_ok test _).trans
      ((bind_of_ok whenTrue _).trans (bind_of_ok (accept_of_ne (ends rfl)) _)))
  | .chooseElse tested branch other, bound, rest, short, ends => by
    simp only [List.cons_append, List.append_assoc] at short ⊢
    have test := tested.read (Nat.le_of_succ_le short)
    have whenFalse := other.read (Nat.le_trans (by simp; omega) short) ends
    refine (statementOf_if _ _).trans ((bind_of_ok test _).trans
      ((bind_of_ok (branch.read ?_ nofun) _).trans
        ((bind_of_ok (accept_cons (by simp) _ _) _).trans (bind_of_ok whenFalse _))))
    exact Nat.le_trans (by simp; omega) short
  | .loop tested repeated, bound, rest, short, ends => by
    simp only [List.cons_append, List.append_assoc] at short ⊢
    have test := tested.read (Nat.le_of_succ_le short)
    have body := repeated.read (Nat.le_trans (by simp; omega) short) ends
    exact (statementOf_while _ _).trans ((bind_of_ok test _).trans (bind_of_ok body _))
  | .leave, _, _, _, _ => rfl
  | .leaveWith inside, bound, rest, short, _ => by
    simp only [List.cons_append, List.append_assoc, List.nil_append] at short ⊢
    have value := inside.read (Nat.le_of_succ_le short) endsExpression_semicolon
    exact (statementOf_returnValue (ne_semicolon_of_startsExpression (inside.starts _))).trans
      (closed_eq_ok_iff.mpr ⟨_, _, value, rfl⟩)
  | .block statements, bound, rest, short, _ => by
    simp only [List.cons_append, List.append_assoc, List.nil_append] at short ⊢
    have shorter := Nat.le_of_succ_le short
    exact (statementOf_block _ _).trans (bind_of_ok (statements.read shorter shorter) _)
  | .empty, _, _, _, _ => rfl

theorem SpellsStatements.read {allowance : Nat} {tokens : List Token}
    {body : List Statement} :
    SpellsStatements allowance tokens body → ∀ {bound rounds : Nat} {rest : List Token}
      {closing : Span}, (tokens ++ ⟨.mark .closeBrace, closing⟩ :: rest).length ≤ bound →
      (tokens ++ ⟨.mark .closeBrace, closing⟩ :: rest).length ≤ rounds →
      statementsToClose (statement bound allowance) rounds
        (tokens ++ ⟨.mark .closeBrace, closing⟩ :: rest) = .ok (body, rest)
  | .nil, bound, 0, rest, closing, short, enough => by simp at enough
  | .nil, bound, rounds + 1, rest, closing, short, enough =>
    bind_of_ok (accept_cons (by simp) _ _) _
  | .cons first others, bound, 0, rest, closing, short, enough => by simp at enough
  | .cons first others, bound, rounds + 1, rest, closing, short, enough => by
    have := List.length_pos_iff.mpr first.ne_nil
    rw [List.append_assoc] at short enough ⊢
    have head := first.read short fun _ => others.next_ne_else closing rest
    refine (bind_of_ok (accept_of_ne ?_) _).trans
      ((bind_of_ok head _).trans (bind_of_ok (others.read ?_ ?_) _))
    · exact ne_closeBrace_of_startsStatement (first.starts _)
    · exact Nat.le_trans (by simp) short
    · simp at enough ⊢
      omega

end

/-! ## Items -/

section

variable {bound : Nat} {tokens rest : List Token}

theorem SpellsParameterList.read {list : List Parameter} {closing : Span} {rounds : Nat}
    (spelled : SpellsParameterList tokens list)
    (enough : (tokens ++ ⟨.mark .closeParen, closing⟩ :: rest).length ≤ rounds) :
    parameterList rounds (tokens ++ ⟨.mark .closeParen, closing⟩ :: rest) =
      .ok (list, ⟨.mark .closeParen, closing⟩ :: rest) := by
  induction spelled generalizing rounds with
  | @last type name start stop =>
    rcases rounds with _ | rounds
    · simp at enough
    exact (bind_of_ok (typeName?_cons type start _) _).trans
      ((bind_of_ok (identifier_eq_ok_iff.mpr rfl) _).trans
        (bind_of_ok (accept_of_ne (by simp)) _))
  | @more type name start stop comma tokens list others inductiveHypothesis =>
    rcases rounds with _ | rounds
    · simp at enough
    have values := inductiveHypothesis (Nat.le_of_succ_le_succ (Nat.le_trans (by simp) enough))
    exact (bind_of_ok (typeName?_cons type start _) _).trans
      ((bind_of_ok (identifier_eq_ok_iff.mpr rfl) _).trans
        ((bind_of_ok (accept_cons (by simp) _ _) _).trans (bind_of_ok values _)))

theorem SpellsParameters.read {list : List Parameter} {closing : Span}
    (spelled : SpellsParameters tokens list)
    (short : (tokens ++ ⟨.mark .closeParen, closing⟩ :: rest).length ≤ bound) :
    parameters bound (tokens ++ ⟨.mark .closeParen, closing⟩ :: rest) = .ok (list, rest) := by
  cases spelled with
  | none => exact bind_of_ok (accept_cons (by simp) _ _) _
  | void => rfl
  | list spelled =>
    have list := spelled.read short
    obtain ⟨type, name, start, stop, others, rfl⟩ := spelled.first
    exact (bind_of_ok (accept_of_ne (by simp)) _).trans
      ((bind_of_ok (atVoidParameters_parameter type name start stop _) _).trans
        (closed_eq_ok_iff.mpr ⟨_, _, list, rfl⟩))

/-- A function without a body is read up to the semicolon. -/
theorem functionRest_semicolon {returns : TypeName} {name : String} {isExternal : Bool}
    {start closing stop : Span} {list : List Parameter} (spelled : SpellsParameters tokens list)
    (short : (tokens ++ ⟨.mark .closeParen, closing⟩ :: ⟨.mark .semicolon, stop⟩ ::
      rest).length ≤ bound) :
    functionRest bound returns name isExternal start
      (tokens ++ ⟨.mark .closeParen, closing⟩ :: ⟨.mark .semicolon, stop⟩ :: rest) =
      .ok (.function returns name list none isExternal (start.through stop), rest) :=
  bind_of_ok (spelled.read short) _

/-- A function with a body is read up to the brace that closes it. -/
theorem functionRest_body {returns : TypeName} {name : String}
    {start closing opening ending : Span} {list : List Parameter} {inner : List Token}
    {body : List Statement} (spelled : SpellsParameters tokens list)
    (statements : SpellsStatements nestingLimit inner body)
    (short : (tokens ++ ⟨.mark .closeParen, closing⟩ :: ⟨.mark .openBrace, opening⟩ ::
      (inner ++ ⟨.mark .closeBrace, ending⟩ :: rest)).length ≤ bound) :
    functionRest bound returns name false start
      (tokens ++ ⟨.mark .closeParen, closing⟩ :: ⟨.mark .openBrace, opening⟩ ::
        (inner ++ ⟨.mark .closeBrace, ending⟩ :: rest)) =
      .ok (.function returns name list (some body) false (start.through opening), rest) := by
  have shorter : (inner ++ ⟨.mark .closeBrace, ending⟩ :: rest).length ≤ bound :=
    Nat.le_trans (by simp; omega) short
  exact (bind_of_ok (spelled.read short) _).trans
    (bind_of_ok (statements.read shorter shorter) _)

theorem SpellsInitial.next_ne_openParen {allowance : Nat} {initial : Option Expression}
    (initialized : SpellsInitial allowance tokens initial) (closing : Span) (rest : List Token) :
    nextLexeme (tokens ++ ⟨.mark .semicolon, closing⟩ :: rest) ≠ .mark .openParen := by
  cases initialized <;> simp

theorem SpellsItem.read {result : Item} (spelled : SpellsItem nestingLimit tokens result)
    (short : (tokens ++ rest).length ≤ bound) :
    item bound (tokens ++ rest) = .ok (result, rest) := by
  cases spelled with
  | «variable» initialized =>
    simp only [List.cons_append, List.append_assoc, List.nil_append] at short ⊢
    have initial := initialized.read (Nat.le_of_succ_le (Nat.le_of_succ_le short))
      endsExpression_semicolon
    rw [item_variable (initialized.next_ne_openParen _ rest)]
    exact closed_eq_ok_iff.mpr ⟨_, _, initial, rfl⟩
  | prototype signature =>
    obtain ⟨spelled⟩ := signature
    simp only [List.cons_append, List.append_assoc, List.nil_append] at short ⊢
    rw [item_function]
    exact functionRest_semicolon spelled (Nat.le_trans (Nat.le_add_right _ 3) short)
  | external signature =>
    obtain ⟨spelled⟩ := signature
    simp only [List.cons_append, List.append_assoc, List.nil_append] at short ⊢
    rw [item_external]
    exact functionRest_semicolon spelled (Nat.le_trans (Nat.le_add_right _ 4) short)
  | definition signature statements =>
    obtain ⟨spelled⟩ := signature
    simp only [List.cons_append, List.append_assoc, List.nil_append] at short ⊢
    rw [item_function]
    exact functionRest_body spelled statements (Nat.le_trans (Nat.le_add_right _ 3) short)

theorem SpellsProgram.read {limit : Nat} {items : List Item}
    (program : SpellsProgram nestingLimit tokens items) (ended : nextLexeme rest = .endOfInput)
    (limited : (tokens ++ rest).length ≤ limit) (enough : tokens.length ≤ bound) :
    Parser.items limit bound (tokens ++ rest) = .ok (items, rest) := by
  induction program generalizing bound with
  | nil =>
    cases bound with
    | zero => rfl
    | succ bound => exact congrFun (if_pos ended) rest
  | @cons tokens others head tail first program inductiveHypothesis =>
    have taken := List.length_pos_iff.mpr first.ne_nil
    rcases bound with _ | bound
    · simp only [List.length_append] at enough
      omega
    rw [List.append_assoc] at limited ⊢
    have fewer : others.length ≤ bound := by
      simp only [List.length_append] at enough
      omega
    have tail := inductiveHypothesis (Nat.le_trans (by simp) limited) fewer
    refine (congrFun (if_neg ?_) _).trans ((bind_of_ok (first.read limited) _).trans
      (bind_of_ok tail _))
    exact first.unended.next_ne_end first.ne_nil _

end

end IncrementalC.Syntax
