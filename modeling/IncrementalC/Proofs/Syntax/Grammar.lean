import IncrementalC.Proofs.Syntax.Readers

/-!
Contract: the tokens that phrases are made of.

Owns: which lexemes the phrases start with, and that no phrase contains the end of input.

Does not own: how a phrase is found.
-/

namespace IncrementalC.Syntax

open Syntax.Parser

/-! ## First lexemes -/

mutual

theorem SpellsExpression.starts {allowance : Nat} {tokens : List Token} {result : Expression} :
    SpellsExpression allowance tokens result →
      ∀ rest, startsExpression (nextLexeme (tokens ++ rest)) = true
  | .value operators, rest => operators.starts rest
  | .assign assigned _, rest => by
    rw [List.append_assoc]
    exact assigned.starts _

theorem SpellsOperators.starts {allowance : Nat} {levels : List OperatorLevel}
    {tokens : List Token} {result : Expression} :
    SpellsOperators allowance levels tokens result →
      ∀ rest, startsExpression (nextLexeme (tokens ++ rest)) = true
  | .operand single, rest => single.starts rest
  | .tighter operators, rest => operators.starts rest
  | .apply first _ _, rest => by
    rw [List.append_assoc]
    exact first.starts _

theorem SpellsOperand.starts {allowance : Nat} {tokens : List Token} {result : Expression} :
    SpellsOperand allowance tokens result →
      ∀ rest, startsExpression (nextLexeme (tokens ++ rest)) = true
  | .plain primary, rest => by
    rw [startsExpression, primary.starts rest]
    rfl
  | .negate _, _ => rfl
  | .not _, _ => rfl

theorem SpellsPrimary.starts {allowance : Nat} {tokens : List Token} {result : Expression} :
    SpellsPrimary allowance tokens result →
      ∀ rest, startsPrimary (nextLexeme (tokens ++ rest)) = true
  | .integer, _ => rfl
  | .name, _ => rfl
  | .call, _ => rfl
  | .callWith _, _ => rfl
  | .group _, _ => rfl

end

theorem SpellsArguments.starts {allowance : Nat} {tokens : List Token}
    {values : List Expression} (given : SpellsArguments allowance tokens values)
    (rest : List Token) : startsExpression (nextLexeme (tokens ++ rest)) = true := by
  cases given with
  | last expression => exact expression.starts rest
  | more expression others =>
    rw [List.append_assoc]
    exact expression.starts _

/-- No statement starts with `else` or with the brace that closes a block. -/
def startsStatement : Lexeme → Bool
  | .keyword .elseWord => false
  | .mark .closeBrace => false
  | _ => true

theorem startsStatement_of_startsExpression {lexeme : Lexeme}
    (starts : startsExpression lexeme = true) : startsStatement lexeme = true := by
  cases lexeme with
  | mark symbol => cases symbol <;> first | rfl | exact absurd starts (by decide)
  | keyword word => cases starts
  | endOfInput => cases starts
  | integer value => rfl
  | identifier name => rfl

theorem ne_else_of_startsStatement {lexeme : Lexeme} (starts : startsStatement lexeme = true) :
    lexeme ≠ .keyword .elseWord := by
  rintro rfl
  cases starts

theorem ne_closeBrace_of_startsStatement {lexeme : Lexeme}
    (starts : startsStatement lexeme = true) : lexeme ≠ .mark .closeBrace := by
  rintro rfl
  cases starts

theorem SpellsStatement.ne_nil {allowance : Nat} {dangling : Bool} {tokens : List Token}
    {result : Statement} (spelled : SpellsStatement allowance dangling tokens result) :
    tokens ≠ [] := by
  cases spelled <;> simp

theorem SpellsStatement.starts {allowance : Nat} {dangling : Bool} {tokens : List Token}
    {result : Statement} (spelled : SpellsStatement allowance dangling tokens result)
    (rest : List Token) : startsStatement (nextLexeme (tokens ++ rest)) = true := by
  cases spelled with
  | @declare _ type => cases type <;> rfl
  | evaluate expression =>
    rw [List.append_assoc]
    exact startsStatement_of_startsExpression (expression.starts _)
  | choose condition branch => rfl
  | chooseElse condition branch other => rfl
  | loop condition repeated => rfl
  | leave => rfl
  | leaveWith expression => rfl
  | block statements => rfl
  | empty => rfl

theorem SpellsParameterList.first {tokens : List Token} {list : List Parameter}
    (spelled : SpellsParameterList tokens list) :
    ∃ type name start stop others,
      tokens = ⟨.keyword (TypeName.keyword type), start⟩ :: ⟨.identifier name, stop⟩ :: others := by
  cases spelled with
  | last => exact ⟨_, _, _, _, _, rfl⟩
  | more => exact ⟨_, _, _, _, _, rfl⟩

theorem SpellsItem.ne_nil {allowance : Nat} {tokens : List Token} {result : Item}
    (spelled : SpellsItem allowance tokens result) : tokens ≠ [] := by
  cases spelled <;> simp

/-! ## The end of input -/

/-- No token is the end of input. -/
def Unended (tokens : List Token) : Prop := ∀ token ∈ tokens, token.lexeme ≠ .endOfInput

@[simp] theorem unended_nil : Unended [] := by simp [Unended]

@[simp] theorem unended_cons {token : Token} {rest : List Token} :
    Unended (token :: rest) ↔ token.lexeme ≠ .endOfInput ∧ Unended rest := by
  simp [Unended]

@[simp] theorem unended_append {before after : List Token} :
    Unended (before ++ after) ↔ Unended before ∧ Unended after := by
  simp only [Unended, List.mem_append]
  exact ⟨fun all => ⟨fun token member => all token (.inl member),
      fun token member => all token (.inr member)⟩,
    fun both token member => member.elim (both.1 token) (both.2 token)⟩

theorem Unended.next_ne_end {tokens : List Token} (unended : Unended tokens)
    (more : tokens ≠ []) (rest : List Token) : nextLexeme (tokens ++ rest) ≠ .endOfInput := by
  cases tokens with
  | nil => exact absurd rfl more
  | cons token others => exact unended token List.mem_cons_self

mutual

theorem SpellsExpression.unended {allowance : Nat} {tokens : List Token}
    {result : Expression} : SpellsExpression allowance tokens result → Unended tokens
  | .value operators => operators.unended
  | .assign assigned assigns => by simp [assigned.unended, assigns.unended]

theorem SpellsOperators.unended {allowance : Nat} {levels : List OperatorLevel}
    {tokens : List Token} {result : Expression} :
    SpellsOperators allowance levels tokens result → Unended tokens
  | .operand single => single.unended
  | .tighter operators => operators.unended
  | .apply first _ second => by simp [first.unended, second.unended]

theorem SpellsOperand.unended {allowance : Nat} {tokens : List Token} {result : Expression} :
    SpellsOperand allowance tokens result → Unended tokens
  | .plain primary => primary.unended
  | .negate operand => by simp [operand.unended]
  | .not operand => by simp [operand.unended]

theorem SpellsPrimary.unended {allowance : Nat} {tokens : List Token} {result : Expression} :
    SpellsPrimary allowance tokens result → Unended tokens
  | .integer => by simp
  | .name => by simp
  | .call => by simp
  | .callWith given => by simp [given.unended]
  | .group expression => by simp [expression.unended]

theorem SpellsArguments.unended {allowance : Nat} {tokens : List Token}
    {values : List Expression} : SpellsArguments allowance tokens values → Unended tokens
  | .last expression => expression.unended
  | .more expression rest => by simp [expression.unended, rest.unended]

end

theorem SpellsInitial.unended {allowance : Nat} {tokens : List Token}
    {initial : Option Expression} (initialized : SpellsInitial allowance tokens initial) :
    Unended tokens := by
  cases initialized with
  | none => simp
  | some expression => simp [expression.unended]

theorem SpellsCondition.unended {allowance : Nat} {tokens : List Token} {value : Expression}
    (condition : SpellsCondition allowance tokens value) : Unended tokens := by
  cases condition with
  | parentheses expression => simp [expression.unended]

mutual

theorem SpellsStatement.unended {allowance : Nat} {dangling : Bool} {tokens : List Token}
    {result : Statement} : SpellsStatement allowance dangling tokens result → Unended tokens
  | .declare _ initialized => by simp [initialized.unended]
  | .evaluate expression => by simp [expression.unended]
  | .choose condition branch => by simp [condition.unended, branch.unended]
  | .chooseElse condition branch other => by
    simp [condition.unended, branch.unended, other.unended]
  | .loop condition repeated => by simp [condition.unended, repeated.unended]
  | .leave => by simp
  | .leaveWith expression => by simp [expression.unended]
  | .block statements => by simp [statements.unended]
  | .empty => by simp

theorem SpellsStatements.unended {allowance : Nat} {tokens : List Token}
    {result : List Statement} : SpellsStatements allowance tokens result → Unended tokens
  | .nil => by simp
  | .cons first rest => by simp [first.unended, rest.unended]

end

theorem SpellsParameterList.unended {tokens : List Token} {list : List Parameter}
    (spelled : SpellsParameterList tokens list) : Unended tokens := by
  induction spelled with
  | last => simp
  | more rest inductiveHypothesis => simp [inductiveHypothesis]

theorem SpellsSignature.unended {returns : TypeName} {name : String} {list : List Parameter}
    {start : Span} {tokens : List Token}
    (signature : SpellsSignature returns name list start tokens) : Unended tokens := by
  obtain ⟨none | void | list⟩ := signature
  · simp
  · simp
  · simp [list.unended]

theorem SpellsItem.unended {allowance : Nat} {tokens : List Token} {result : Item}
    (spelled : SpellsItem allowance tokens result) : Unended tokens := by
  cases spelled with
  | «variable» initialized => simp [initialized.unended]
  | prototype signature => simp [signature.unended]
  | external signature => simp [signature.unended]
  | definition signature statements => simp [signature.unended, statements.unended]

/-- No program contains the end of input. -/
theorem SpellsProgram.unended {allowance : Nat} {tokens : List Token} {items : List Item}
    (program : SpellsProgram allowance tokens items) : Unended tokens := by
  induction program with
  | nil => simp
  | cons first rest inductiveHypothesis => simp [first.unended, inductiveHypothesis]

end IncrementalC.Syntax
