import IncrementalC.Proofs.Syntax.Grammar

/-!
Contract: braces in the phrases of the language.

An expression holds no brace and no semicolon, and statements close as many braces as they
open, each behind its opening one. So a function ends at the first brace that closes one more
than its body has opened.

Owns:
- how deep in braces a stretch of tokens leads, and the stretches that leave no brace of others;
- the braces of expressions and statements;
- where a definition at the front of a program ends.

Does not own: brackets of other kinds.
-/

namespace IncrementalC.Syntax

open Syntax.Parser

/-! ## Depth -/

/-- By how much a lexeme changes the number of open braces. -/
def braceStep : Lexeme → Int
  | .mark .openBrace => 1
  | .mark .closeBrace => -1
  | _ => 0

/-- By how much tokens change the number of open braces. -/
def braceDepth : List Token → Int
  | [] => 0
  | token :: rest => braceStep token.lexeme + braceDepth rest

@[simp] theorem braceDepth_nil : braceDepth [] = 0 := rfl

@[simp] theorem braceDepth_cons (token : Token) (rest : List Token) :
    braceDepth (token :: rest) = braceStep token.lexeme + braceDepth rest := rfl

@[simp] theorem braceDepth_append (before after : List Token) :
    braceDepth (before ++ after) = braceDepth before + braceDepth after := by
  induction before with
  | nil => exact (Int.zero_add _).symm
  | cons token rest inductionHypothesis =>
    rw [List.cons_append, braceDepth_cons, braceDepth_cons, inductionHypothesis, Int.add_assoc]

/-- Every brace that is closed was opened before. -/
def Enclosed (tokens : List Token) : Prop :=
  ∀ before after, tokens = before ++ after → 0 ≤ braceDepth before

/-- Every brace that is closed was opened before, and every brace that is opened is closed. -/
structure Balanced (tokens : List Token) : Prop where
  enclosed : Enclosed tokens
  level : braceDepth tokens = 0

theorem Enclosed.append {before after : List Token} (first : Enclosed before)
    (second : Enclosed after) : Enclosed (before ++ after) := by
  intro left right split
  rcases List.append_eq_append_iff.mp split with ⟨middle, rfl, rfl⟩ | ⟨middle, rfl, rfl⟩
  · have level := first before [] (List.append_nil _).symm
    have more := second middle right rfl
    rw [braceDepth_append]
    omega
  · exact first left middle rfl

theorem Enclosed.of_append {before after : List Token} (enclosed : Enclosed (before ++ after)) :
    Enclosed before := by
  rintro left right rfl
  exact enclosed left (right ++ after) (List.append_assoc ..)

namespace Balanced

theorem nil : Balanced [] := by
  refine ⟨fun before after split => ?_, rfl⟩
  obtain ⟨rfl, -⟩ := List.append_eq_nil_iff.mp split.symm
  exact Int.le_refl 0

theorem append {before after : List Token} (first : Balanced before) (second : Balanced after) :
    Balanced (before ++ after) where
  enclosed := first.enclosed.append second.enclosed
  level := by rw [braceDepth_append, first.level, second.level]; rfl

/-- A token that is no brace changes nothing. -/
theorem single {token : Token} (flat : braceStep token.lexeme = 0) : Balanced [token] := by
  refine ⟨fun before after split => ?_, by simp [flat]⟩
  rcases List.append_eq_singleton_iff.mp split.symm with ⟨rfl, -⟩ | ⟨rfl, -⟩ <;> simp [flat]

theorem cons {token : Token} {rest : List Token} (flat : braceStep token.lexeme = 0)
    (balanced : Balanced rest) : Balanced (token :: rest) :=
  (single flat).append balanced

/-- Tokens that close what they open may stand in front. -/
theorem enclosed_append_iff {before after : List Token} (balanced : Balanced before) :
    Enclosed (before ++ after) ↔ Enclosed after := by
  refine ⟨?_, balanced.enclosed.append⟩
  rintro enclosed left right rfl
  have level := enclosed (before ++ left) right (List.append_assoc ..).symm
  rwa [braceDepth_append, balanced.level, Int.zero_add] at level

/-- Tokens that close what they open may follow. -/
theorem append_enclosed_iff {before after : List Token} (balanced : Balanced after) :
    Enclosed (before ++ after) ↔ Enclosed before :=
  ⟨.of_append, fun enclosed => enclosed.append balanced.enclosed⟩

/-- Tokens in braces. -/
theorem braces {tokens : List Token} (balanced : Balanced tokens) (opening closing : Span) :
    Balanced (⟨.mark .openBrace, opening⟩ :: (tokens ++ [⟨.mark .closeBrace, closing⟩])) := by
  have level := balanced.level
  refine ⟨fun before after split => ?_, by simp [braceStep, level]⟩
  rcases before with _ | ⟨head, before⟩
  · exact Int.le_refl 0
  obtain ⟨rfl, within⟩ := List.cons.inj split
  rcases List.append_eq_append_iff.mp within with ⟨middle, rfl, last⟩ | ⟨middle, rfl, rfl⟩
  · rcases List.append_eq_singleton_iff.mp last.symm with ⟨rfl, -⟩ | ⟨rfl, -⟩ <;>
      simp [braceStep, level]
  · have inside := balanced.enclosed before middle rfl
    simp only [braceDepth_cons, braceStep]
    omega

end Balanced

theorem balanced_of_forall {tokens : List Token}
    (flat : ∀ token ∈ tokens, braceStep token.lexeme = 0) : Balanced tokens := by
  induction tokens with
  | nil => exact .nil
  | cons token rest inductionHypothesis =>
    exact .cons (flat token List.mem_cons_self)
      (inductionHypothesis fun other member => flat other (List.mem_cons_of_mem _ member))

/-! ## Expressions -/

/-- The lexemes that an expression can hold. -/
def inExpression : Lexeme → Bool
  | .identifier _ | .integer _ => true
  | .mark .semicolon | .mark .openBrace | .mark .closeBrace => false
  | .mark _ => true
  | .keyword _ | .endOfInput => false

/-- All tokens are such as an expression can hold. -/
def InExpression (tokens : List Token) : Prop := ∀ token ∈ tokens, inExpression token.lexeme = true

@[simp] theorem inExpression_cons {token : Token} {rest : List Token} :
    InExpression (token :: rest) ↔ inExpression token.lexeme = true ∧ InExpression rest := by
  simp [InExpression]

@[simp] theorem inExpression_append {before after : List Token} :
    InExpression (before ++ after) ↔ InExpression before ∧ InExpression after := by
  simp only [InExpression, List.mem_append]
  exact ⟨fun all => ⟨fun token member => all token (.inl member),
      fun token member => all token (.inr member)⟩,
    fun both token member => member.elim (both.1 token) (both.2 token)⟩

@[simp] theorem inExpression_nil : InExpression [] := by simp [InExpression]

theorem inExpression_of_operator {level : OperatorLevel} (known : level ∈ operatorLevels)
    {symbol : Mark} {operator : BinaryOperator} (denotes : level symbol = some operator) :
    inExpression (.mark symbol) = true := by
  simp only [operatorLevels, List.mem_cons, List.not_mem_nil, or_false] at known
  rcases known with rfl | rfl | rfl | rfl | rfl | rfl <;> cases symbol <;>
    first | rfl | cases denotes

mutual

theorem SpellsExpression.within {allowance : Nat} {tokens : List Token}
    {result : Expression} : SpellsExpression allowance tokens result → InExpression tokens
  | .value operators => operators.within (List.Subset.refl _)
  | .assign assigned assigns => by
    simp [assigned.within (List.Subset.refl _), assigns.within, inExpression]

theorem SpellsOperators.within {allowance : Nat} {levels : List OperatorLevel}
    {tokens : List Token} {result : Expression} (known : levels ⊆ operatorLevels) :
    SpellsOperators allowance levels tokens result → InExpression tokens
  | .operand single => single.within
  | .tighter operators => operators.within fun _ member => known (List.mem_cons_of_mem _ member)
  | .apply first denotes second => by
    have tighter := second.within fun _ member => known (List.mem_cons_of_mem _ member)
    simp [first.within known, tighter,
      inExpression_of_operator (known List.mem_cons_self) denotes]

theorem SpellsOperand.within {allowance : Nat} {tokens : List Token} {result : Expression} :
    SpellsOperand allowance tokens result → InExpression tokens
  | .plain primary => primary.within
  | .negate operand => by simp [operand.within, inExpression]
  | .not operand => by simp [operand.within, inExpression]

theorem SpellsPrimary.within {allowance : Nat} {tokens : List Token} {result : Expression} :
    SpellsPrimary allowance tokens result → InExpression tokens
  | .integer => by simp [inExpression]
  | .name => by simp [inExpression]
  | .call => by simp [inExpression]
  | .callWith given => by simp [given.within, inExpression]
  | .group expression => by simp [expression.within, inExpression]

theorem SpellsArguments.within {allowance : Nat} {tokens : List Token}
    {values : List Expression} : SpellsArguments allowance tokens values → InExpression tokens
  | .last expression => expression.within
  | .more expression rest => by simp [expression.within, rest.within, inExpression]

end

theorem InExpression.braceless {tokens : List Token} (within : InExpression tokens) :
    ∀ token ∈ tokens, braceStep token.lexeme = 0 := by
  intro token member
  have possible := within token member
  unfold inExpression at possible
  unfold braceStep
  split <;> simp_all

theorem InExpression.balanced {tokens : List Token} (within : InExpression tokens) :
    Balanced tokens :=
  balanced_of_forall within.braceless

/-! ## Statements -/

theorem SpellsInitial.balanced {allowance : Nat} {tokens : List Token}
    {initial : Option Expression} (initialized : SpellsInitial allowance tokens initial) :
    Balanced tokens := by
  cases initialized with
  | none => exact .nil
  | some expression => exact .cons rfl expression.within.balanced

theorem SpellsCondition.balanced {allowance : Nat} {tokens : List Token} {value : Expression}
    (condition : SpellsCondition allowance tokens value) : Balanced tokens := by
  cases condition with
  | parentheses expression => exact .cons rfl (expression.within.balanced.append (.single rfl))

mutual

theorem SpellsStatement.balanced {allowance : Nat} {dangling : Bool} {tokens : List Token}
    {result : Statement} : SpellsStatement allowance dangling tokens result → Balanced tokens
  | .declare _ initialized => .cons rfl (.cons rfl (initialized.balanced.append (.single rfl)))
  | .evaluate expression => expression.within.balanced.append (.single rfl)
  | .choose condition branch => .cons rfl (condition.balanced.append branch.balanced)
  | .chooseElse condition branch other =>
    .cons rfl (condition.balanced.append (branch.balanced.append (.cons rfl other.balanced)))
  | .loop condition repeated => .cons rfl (condition.balanced.append repeated.balanced)
  | .leave => .cons rfl (.single rfl)
  | .leaveWith expression => .cons rfl (expression.within.balanced.append (.single rfl))
  | .block statements => statements.balanced.braces _ _
  | .empty => .single rfl

theorem SpellsStatements.balanced {allowance : Nat} {tokens : List Token}
    {result : List Statement} : SpellsStatements allowance tokens result → Balanced tokens
  | .nil => .nil
  | .cons first rest => first.balanced.append rest.balanced

end

/-- Statements that start with `return` hold a semicolon. -/
theorem SpellsStatements.exists_semicolon {allowance : Nat} {start : Span}
    {rest tokens : List Token} {result : List Statement}
    (spelled : SpellsStatements allowance tokens result)
    (returns : tokens = ⟨.keyword .returnWord, start⟩ :: rest) :
    ∃ token ∈ rest, token.lexeme = .mark .semicolon := by
  have holds : ∀ (before after : List Token) (closing : Span),
      ∃ token ∈ (before ++ [⟨.mark .semicolon, closing⟩]) ++ after,
        token.lexeme = .mark .semicolon := by
    intro before after closing
    exact ⟨⟨.mark .semicolon, closing⟩, by simp, rfl⟩
  cases spelled with
  | nil => cases returns
  | cons first others =>
    cases first with
    | @declare _ type => cases type <;> cases returns
    | evaluate expression =>
      rw [List.append_assoc] at returns
      cases (congrArg (fun tokens => startsExpression (nextLexeme tokens)) returns).symm.trans
        (expression.starts _)
    | choose | chooseElse | loop | block | empty => cases returns
    | leave =>
      cases returns
      exact holds [] _ _
    | leaveWith expression =>
      cases returns
      exact holds _ _ _

/-! ## Definitions in front -/

/-- A definition without parameters at the front of a program is followed by what stands behind
the brace that closes its body. -/
theorem SpellsItem.of_opening {allowance : Nat} {type : TypeName} {name : String}
    {start named opening closing braced : Span} {tokens others rest : List Token} {item : Item}
    (spelled : SpellsItem allowance tokens item)
    (split : tokens ++ others = ⟨.keyword type.keyword, start⟩ :: ⟨.identifier name, named⟩ ::
      ⟨.mark .openParen, opening⟩ :: ⟨.mark .closeParen, closing⟩ ::
        ⟨.mark .openBrace, braced⟩ :: rest) :
    ∃ inner body last, rest = inner ++ ⟨.mark .closeBrace, last⟩ :: others ∧
      SpellsStatements allowance inner body ∧
      item = .function type name [] (some body) false (start.through braced) := by
  have sameType : ∀ {other : TypeName}, other.keyword = type.keyword → other = type := by
    intro other same
    cases other <;> cases type <;> first | rfl | cases same
  cases spelled with
  | «variable» initialized =>
    cases initialized <;> simp at split
  | external signature =>
    cases type <;> simp [TypeName.keyword] at split
  | prototype signature =>
    obtain ⟨none | void | list⟩ := signature
    · simp at split
    · simp at split
    · obtain ⟨other, _, _, _, _, rfl⟩ := list.first
      cases other <;> simp at split
  | definition signature statements =>
    obtain ⟨none | void | list⟩ := signature
    · simp only [List.nil_append, List.cons_append, List.cons.injEq, Token.mk.injEq,
        Lexeme.keyword.injEq, Lexeme.identifier.injEq, true_and, List.append_assoc] at split
      obtain ⟨⟨same, rfl⟩, ⟨rfl, -⟩, -, -, rfl, rfl⟩ := split
      obtain rfl := sameType same
      exact ⟨_, _, _, rfl, statements, rfl⟩
    · simp at split
    · obtain ⟨other, _, _, _, _, rfl⟩ := list.first
      cases other <;> simp at split

theorem SpellsProgram.eq_nil_iff {allowance : Nat} {tokens : List Token} {items : List Item}
    (spelled : SpellsProgram allowance tokens items) : tokens = [] ↔ items = [] := by
  cases spelled with
  | nil => simp
  | cons first rest => simp [first.ne_nil]

/-- A program is one definition exactly if the tokens of the definition never close the brace
that its body opens before they end. -/
theorem SpellsProgram.single_iff {allowance : Nat} {type : TypeName} {name : String}
    {start named opening closing braced last : Span} {inside : List Token} {items : List Item}
    (spelled : SpellsProgram allowance (⟨.keyword type.keyword, start⟩ ::
      ⟨.identifier name, named⟩ :: ⟨.mark .openParen, opening⟩ :: ⟨.mark .closeParen, closing⟩ ::
        ⟨.mark .openBrace, braced⟩ :: (inside ++ [⟨.mark .closeBrace, last⟩])) items) :
    (Enclosed inside → ∃ body,
      items = [.function type name [] (some body) false (start.through braced)]) ∧
    (items.length = 1 → Enclosed inside) := by
  generalize whole : (_ :: _ : List Token) = tokens at spelled
  cases spelled with
  | nil => cases whole
  | @cons tokens others head tail first rest =>
    obtain ⟨inner, body, stop, split, statements, rfl⟩ := first.of_opening whole.symm
    have balanced := statements.balanced
    constructor
    · intro enclosed
      have ended : others = [] := by
        rcases List.append_eq_append_iff.mp split with ⟨middle, rfl, more⟩ | ⟨middle, rfl, more⟩
        · have short := congrArg List.length more
          simp only [List.length_append, List.length_cons, List.length_nil] at short
          exact List.length_eq_zero_iff.mp (by omega)
        · cases middle with
          | nil => exact (List.cons.inj more).2
          | cons token between =>
            -- The brace that ends the definition closes one more than the body has opened.
            obtain ⟨rfl, -⟩ := List.cons.inj more
            have depth := enclosed (inner ++ [⟨.mark .closeBrace, stop⟩]) between (by simp)
            simp [balanced.level, braceStep] at depth
      exact ⟨body, by rw [rest.eq_nil_iff.mp ended]⟩
    · intro one
      obtain rfl : tail = [] := by simpa using one
      rw [rest.eq_nil_iff.mpr rfl] at split
      rw [(List.append_inj' split rfl).1]
      exact balanced.enclosed

/-- A definition that starts with `return`, and whose semicolon stands in front of its closing
brace, ends with it. -/
theorem SpellsProgram.length_of_return {allowance : Nat} {type : TypeName} {name : String}
    {start named opening closing braced returns ended last : Span} {inside : List Token}
    {items : List Item}
    (spelled : SpellsProgram allowance (⟨.keyword type.keyword, start⟩ ::
      ⟨.identifier name, named⟩ :: ⟨.mark .openParen, opening⟩ :: ⟨.mark .closeParen, closing⟩ ::
        ⟨.mark .openBrace, braced⟩ :: (⟨.keyword .returnWord, returns⟩ ::
          (inside ++ [⟨.mark .semicolon, ended⟩]) ++ [⟨.mark .closeBrace, last⟩])) items)
    (plain : ∀ token ∈ inside, token.lexeme ≠ .mark .semicolon) : items.length = 1 := by
  generalize whole : (_ :: _ : List Token) = tokens at spelled
  cases spelled with
  | nil => cases whole
  | @cons tokens others head tail first rest =>
    obtain ⟨inner, body, stop, split, statements, rfl⟩ := first.of_opening whole.symm
    cases inner with
    | nil => cases split
    | cons token inner =>
      rw [List.cons_append, List.cons_append, List.append_assoc] at split
      obtain ⟨rfl, behind⟩ := List.cons.inj split
      obtain ⟨semicolon, member, isSemicolon⟩ := statements.exists_semicolon rfl
      have ended : others = [] := by
        rcases List.append_eq_append_iff.mp behind with
          ⟨middle, rfl, more⟩ | ⟨middle, rfl, more⟩
        · cases middle with
          | nil => cases more
          | cons token middle =>
            have short := congrArg List.length more
            simp only [List.length_append, List.length_cons, List.length_nil] at short
            exact List.length_eq_zero_iff.mp (by omega)
        · exact absurd isSemicolon (plain semicolon (List.mem_append_left _ member))
      rw [rest.eq_nil_iff.mp ended]
      rfl

end IncrementalC.Syntax
