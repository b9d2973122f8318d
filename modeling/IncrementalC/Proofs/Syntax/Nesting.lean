import IncrementalC.Proofs.Input.Placement

/-!
Contract: what the limit on nesting bounds, and what it does not.

Each statement, expression and operand of a unary operator spends one level of nesting, and a
level adds at most eight to the height of the tree: one for each of the six precedences, one for
an assignment, and one for what holds the expression. A chain of operators of one precedence
is read in a loop, which spends nothing, although each operator of it puts the tree read so far
one level further down. So the limit bounds the height of a tree only as far as steps to left
operands are not counted, and no limit on the height itself follows from it.

Owns: the height of trees, the bound that nesting gives, and texts whose trees are as high as one
likes.

Does not own: which texts are accepted.
-/

namespace IncrementalC.Syntax

open Input (IsWord Spelled isWord_keyword)
open Syntax.Parser (OperatorLevel branchBody)

/-! ## Heights -/

mutual

/-- The height of an expression when a step to the left operand of an operator counts as
`chained`. With one it is the height of the tree. -/
def Expression.levels (chained : Nat) : Expression → Nat
  | .integer _ _ | .name _ _ => 1
  | .assign target value _ => max (target.levels chained) (value.levels chained) + 1
  | .call _ arguments _ => Expression.listLevels chained arguments + 1
  | .unary _ operand _ => operand.levels chained + 1
  | .binary _ left right _ => max (left.levels chained + chained) (right.levels chained + 1)

/-- The largest of the heights. -/
def Expression.listLevels (chained : Nat) : List Expression → Nat
  | [] => 0
  | head :: tail => max (head.levels chained) (Expression.listLevels chained tail)

end

mutual

/-- The height of a statement together with the expressions in it. -/
def Statement.levels (chained : Nat) : Statement → Nat
  | .declare _ _ (some value) _ | .evaluate value | .leave (some value) _ =>
    value.levels chained + 1
  | .declare _ _ none _ | .leave none _ | .empty => 1
  | .choose condition whenTrue whenFalse =>
    max (condition.levels chained)
      (max (Statement.listLevels chained whenTrue) (Statement.listLevels chained whenFalse)) + 1
  | .loop condition body => max (condition.levels chained) (Statement.listLevels chained body) + 1
  | .block body => Statement.listLevels chained body + 1

/-- The largest of the heights. -/
def Statement.listLevels (chained : Nat) : List Statement → Nat
  | [] => 0
  | head :: tail => max (head.levels chained) (Statement.listLevels chained tail)

end

/-- The largest height of an expression or statement of a declaration. -/
def Item.levels (chained : Nat) : Item → Nat
  | .variable _ _ (some value) _ => value.levels chained
  | .function _ _ _ (some body) _ _ => Statement.listLevels chained body
  | .variable _ _ none _ | .function _ _ _ none _ _ => 0

/-- The height of the highest expression or statement of a declaration. -/
def Item.height (item : Item) : Nat := item.levels 1

mutual

/-- How many steps to left operands follow each other in an expression at most, when `above` of
them lead to it. -/
def Expression.chain (above : Nat) : Expression → Nat
  | .integer _ _ | .name _ _ => above
  | .assign target value _ => max above (max (target.chain 0) (value.chain 0))
  | .call _ arguments _ => max above (Expression.listChain arguments)
  | .unary _ operand _ => max above (operand.chain 0)
  | .binary _ left right _ => max (left.chain (above + 1)) (right.chain 0)

/-- The longest of the chains. -/
def Expression.listChain : List Expression → Nat
  | [] => 0
  | head :: tail => max (head.chain 0) (Expression.listChain tail)

end

mutual

/-- The longest chain in the expressions of a statement. -/
def Statement.chain : Statement → Nat
  | .declare _ _ (some value) _ | .evaluate value | .leave (some value) _ => value.chain 0
  | .declare _ _ none _ | .leave none _ | .empty => 0
  | .choose condition whenTrue whenFalse =>
    max (condition.chain 0) (max (Statement.listChain whenTrue) (Statement.listChain whenFalse))
  | .loop condition body => max (condition.chain 0) (Statement.listChain body)
  | .block body => Statement.listChain body

/-- The longest of the chains. -/
def Statement.listChain : List Statement → Nat
  | [] => 0
  | head :: tail => max head.chain (Statement.listChain tail)

end

/-- The longest chain in the expressions of a declaration. -/
def Item.chain : Item → Nat
  | .variable _ _ (some value) _ => value.chain 0
  | .function _ _ _ (some body) _ _ => Statement.listChain body
  | .variable _ _ none _ | .function _ _ _ none _ _ => 0

/-! ## Heights and chains -/

theorem Expression.le_chain (above : Nat) : ∀ expression : Expression,
    above ≤ expression.chain above
  | .integer _ _ | .name _ _ => Nat.le_refl _
  | .assign _ _ _ | .call _ _ _ | .unary _ _ _ => Nat.le_max_left _ _
  | .binary _ left _ _ =>
    Nat.le_trans (Nat.le_of_succ_le (left.le_chain (above + 1))) (Nat.le_max_left _ _)

mutual

/-- A chain is no longer than the tree it is in is high. -/
theorem Expression.chain_le (above : Nat) :
    ∀ expression : Expression, expression.chain above ≤ expression.levels 1 + above
  | .integer _ _ | .name _ _ => Nat.le_add_left _ _
  | .assign target value _ => by
    have targetBound := target.chain_le 0
    have valueBound := value.chain_le 0
    simp only [Expression.chain, Expression.levels]
    omega
  | .call _ arguments _ => by
    have bound := Expression.listChain_le arguments
    simp only [Expression.chain, Expression.levels]
    omega
  | .unary _ operand _ => by
    have bound := operand.chain_le 0
    simp only [Expression.chain, Expression.levels]
    omega
  | .binary _ left right _ => by
    have leftBound := left.chain_le (above + 1)
    have rightBound := right.chain_le 0
    simp only [Expression.chain, Expression.levels]
    omega

theorem Expression.listChain_le : ∀ expressions : List Expression,
    Expression.listChain expressions ≤ Expression.listLevels 1 expressions
  | [] => Nat.le_refl _
  | head :: tail => by
    have headBound := head.chain_le 0
    have tailBound := Expression.listChain_le tail
    simp only [Expression.listChain, Expression.listLevels]
    omega

end

mutual

theorem Statement.chain_le : ∀ statement : Statement, statement.chain ≤ statement.levels 1
  | .declare _ _ (some value) _ | .evaluate value | .leave (some value) _ =>
    Nat.le_succ_of_le (value.chain_le 0)
  | .declare _ _ none _ | .leave none _ | .empty => Nat.zero_le _
  | .choose condition whenTrue whenFalse => by
    have conditionBound := condition.chain_le 0
    have whenTrueBound := Statement.listChain_le whenTrue
    have whenFalseBound := Statement.listChain_le whenFalse
    simp only [Statement.chain, Statement.levels]
    omega
  | .loop condition body => by
    have conditionBound := condition.chain_le 0
    have bodyBound := Statement.listChain_le body
    simp only [Statement.chain, Statement.levels]
    omega
  | .block body => Nat.le_succ_of_le (Statement.listChain_le body)

theorem Statement.listChain_le : ∀ statements : List Statement,
    Statement.listChain statements ≤ Statement.listLevels 1 statements
  | [] => Nat.le_refl _
  | head :: tail => by
    have headBound := head.chain_le
    have tailBound := Statement.listChain_le tail
    simp only [Statement.listChain, Statement.listLevels]
    omega

end

theorem Item.chain_le_height (item : Item) : item.chain ≤ item.height := by
  cases item with
  | «variable» type name initial span =>
    cases initial with
    | none => exact Nat.zero_le _
    | some value => exact value.chain_le 0
  | function returns name parameters body isExternal span =>
    cases body with
    | none => exact Nat.zero_le _
    | some body => exact Statement.listChain_le body

mutual

/-- A tree is as high as its chains make it: each level that is counted without them goes along
with one chain at most. -/
theorem Expression.levels_le_mul {longest : Nat} (above : Nat) :
    ∀ expression : Expression, expression.chain above ≤ longest →
      expression.levels 1 + above ≤ expression.levels 0 * (longest + 1)
  | .integer _ _ | .name _ _ => by
    intro le
    simp only [Expression.chain, Expression.levels] at le ⊢
    omega
  | .assign target value _ => by
    intro le
    simp only [Expression.chain, Nat.max_le] at le
    have targetBound := target.levels_le_mul 0 le.2.1
    have valueBound := value.levels_le_mul 0 le.2.2
    simp only [Expression.levels, Nat.succ_mul, ← Nat.mul_max_mul_right]
    omega
  | .call _ arguments _ => by
    intro le
    simp only [Expression.chain, Nat.max_le] at le
    have bound := Expression.listLevels_le_mul arguments le.2
    simp only [Expression.levels, Nat.succ_mul]
    omega
  | .unary _ operand _ => by
    intro le
    simp only [Expression.chain, Nat.max_le] at le
    have bound := operand.levels_le_mul 0 le.2
    simp only [Expression.levels, Nat.succ_mul]
    omega
  | .binary _ left right _ => by
    intro le
    simp only [Expression.chain, Nat.max_le] at le
    have aboveLe := Nat.le_trans (left.le_chain (above + 1)) le.1
    have leftBound := left.levels_le_mul (above + 1) le.1
    have rightBound := right.levels_le_mul 0 le.2
    simp only [Expression.levels, Nat.succ_mul, ← Nat.mul_max_mul_right, Nat.add_zero]
    omega

theorem Expression.listLevels_le_mul {longest : Nat} :
    ∀ expressions : List Expression, Expression.listChain expressions ≤ longest →
      Expression.listLevels 1 expressions ≤ Expression.listLevels 0 expressions * (longest + 1)
  | [] => fun _ => Nat.zero_le _
  | head :: tail => by
    intro le
    simp only [Expression.listChain, Nat.max_le] at le
    have headBound := head.levels_le_mul 0 le.1
    have tailBound := Expression.listLevels_le_mul tail le.2
    simp only [Expression.listLevels, ← Nat.mul_max_mul_right]
    omega

end

mutual

theorem Statement.levels_le_mul {longest : Nat} :
    ∀ statement : Statement, statement.chain ≤ longest →
      statement.levels 1 ≤ statement.levels 0 * (longest + 1)
  | .declare _ _ (some value) _ | .evaluate value | .leave (some value) _ => by
    intro le
    have bound := value.levels_le_mul 0 le
    simp only [Statement.levels, Nat.succ_mul]
    omega
  | .declare _ _ none _ | .leave none _ | .empty => by
    intro _
    simp only [Statement.levels]
    omega
  | .choose condition whenTrue whenFalse => by
    intro le
    simp only [Statement.chain, Nat.max_le] at le
    have conditionBound := condition.levels_le_mul 0 le.1
    have whenTrueBound := Statement.listLevels_le_mul whenTrue le.2.1
    have whenFalseBound := Statement.listLevels_le_mul whenFalse le.2.2
    simp only [Statement.levels, Nat.succ_mul, ← Nat.mul_max_mul_right]
    omega
  | .loop condition body => by
    intro le
    simp only [Statement.chain, Nat.max_le] at le
    have conditionBound := condition.levels_le_mul 0 le.1
    have bodyBound := Statement.listLevels_le_mul body le.2
    simp only [Statement.levels, Nat.succ_mul, ← Nat.mul_max_mul_right]
    omega
  | .block body => by
    intro le
    have bound := Statement.listLevels_le_mul body le
    simp only [Statement.levels, Nat.succ_mul]
    omega

theorem Statement.listLevels_le_mul {longest : Nat} :
    ∀ statements : List Statement, Statement.listChain statements ≤ longest →
      Statement.listLevels 1 statements ≤ Statement.listLevels 0 statements * (longest + 1)
  | [] => fun _ => Nat.zero_le _
  | head :: tail => by
    intro le
    simp only [Statement.listChain, Nat.max_le] at le
    have headBound := head.levels_le_mul le.1
    have tailBound := Statement.listLevels_le_mul tail le.2
    simp only [Statement.listLevels, ← Nat.mul_max_mul_right]
    omega

end

theorem Item.height_le_mul (item : Item) : item.height ≤ item.levels 0 * (item.chain + 1) := by
  cases item with
  | «variable» type name initial span =>
    cases initial with
    | none => exact Nat.zero_le _
    | some value => exact value.levels_le_mul 0 (Nat.le_refl _)
  | function returns name parameters body isExternal span =>
    cases body with
    | none => exact Nat.zero_le _
    | some body => exact Statement.listLevels_le_mul body (Nat.le_refl _)

theorem Statement.listLevels_branchBody_le {chained bound : Nat} {branch : Statement}
    (le : branch.levels chained ≤ bound) :
    Statement.listLevels chained (branchBody branch) ≤ bound := by
  cases branch with
  | block body => exact Nat.le_of_succ_le le
  | declare | evaluate | choose | loop | leave | empty => exact Nat.max_le.mpr ⟨le, Nat.zero_le _⟩

/-! ## What nesting bounds -/

mutual

theorem SpellsExpression.levels_le {allowance : Nat} {tokens : List Token} {result : Expression} :
    SpellsExpression allowance tokens result → result.levels 0 ≤ 8 * allowance
  | .value operators => by
    have bound := operators.levels_le
    rw [show Parser.operatorLevels.length = 6 from rfl] at bound
    omega
  | .assign assigned assigns => by
    have targetBound := assigned.levels_le
    have valueBound := assigns.levels_le
    rw [show Parser.operatorLevels.length = 6 from rfl] at targetBound
    simp only [Expression.levels]
    omega

/-- Each precedence adds at most one, however many operators stand in a chain. -/
theorem SpellsOperators.levels_le {allowance : Nat} {levels : List OperatorLevel}
    {tokens : List Token} {result : Expression} :
    SpellsOperators allowance levels tokens result →
      result.levels 0 ≤ 8 * allowance + 1 + levels.length
  | .operand single => single.levels_le
  | .tighter operators => Nat.le_succ_of_le operators.levels_le
  | .apply first denotes second => by
    have leftBound := first.levels_le
    have rightBound := second.levels_le
    simp only [Expression.levels, List.length_cons] at leftBound ⊢
    omega

theorem SpellsOperand.levels_le {allowance : Nat} {tokens : List Token} {result : Expression} :
    SpellsOperand allowance tokens result → result.levels 0 ≤ 8 * allowance + 1
  | .plain primary => primary.levels_le
  | .negate operand | .not operand => by
    have bound := operand.levels_le
    simp only [Expression.levels]
    omega

theorem SpellsPrimary.levels_le {allowance : Nat} {tokens : List Token} {result : Expression} :
    SpellsPrimary allowance tokens result → result.levels 0 ≤ 8 * allowance + 1
  | .integer | .name | .call => Nat.le_add_left 1 _
  | .callWith given => Nat.succ_le_succ given.levels_le
  | .group expression => Nat.le_succ_of_le expression.levels_le

theorem SpellsArguments.levels_le {allowance : Nat} {tokens : List Token}
    {values : List Expression} :
    SpellsArguments allowance tokens values → Expression.listLevels 0 values ≤ 8 * allowance
  | .last expression => Nat.max_le.mpr ⟨expression.levels_le, Nat.zero_le _⟩
  | .more expression rest => Nat.max_le.mpr ⟨expression.levels_le, rest.levels_le⟩

end

theorem SpellsCondition.levels_le {allowance : Nat} {tokens : List Token} {value : Expression}
    (condition : SpellsCondition allowance tokens value) : value.levels 0 ≤ 8 * allowance := by
  cases condition with
  | parentheses expression => exact expression.levels_le

mutual

theorem SpellsStatement.levels_le {allowance : Nat} {dangling : Bool} {tokens : List Token}
    {result : Statement} :
    SpellsStatement allowance dangling tokens result → result.levels 0 ≤ 8 * allowance
  | .declare stated initialized => by
    cases initialized with
    | none =>
      simp only [Statement.levels]
      omega
    | some expression =>
      have bound := expression.levels_le
      simp only [Statement.levels]
      omega
  | .evaluate expression | .leaveWith expression => by
    have bound := expression.levels_le
    simp only [Statement.levels]
    omega
  | .choose condition branch => by
    have conditionBound := condition.levels_le
    have branchBound := Statement.listLevels_branchBody_le branch.levels_le
    simp only [Statement.levels, Statement.listLevels]
    omega
  | .chooseElse condition branch other => by
    have conditionBound := condition.levels_le
    have branchBound := Statement.listLevels_branchBody_le branch.levels_le
    have otherBound := Statement.listLevels_branchBody_le other.levels_le
    simp only [Statement.levels]
    omega
  | .loop condition repeated => by
    have conditionBound := condition.levels_le
    have bodyBound := Statement.listLevels_branchBody_le repeated.levels_le
    simp only [Statement.levels]
    omega
  | .leave | .empty => by
    simp only [Statement.levels]
    omega
  | .block statements => by
    have bound := statements.levels_le
    simp only [Statement.levels]
    omega

theorem SpellsStatements.levels_le {allowance : Nat} {tokens : List Token}
    {result : List Statement} :
    SpellsStatements allowance tokens result → Statement.listLevels 0 result ≤ 8 * allowance
  | .nil => Nat.zero_le _
  | .cons first rest => Nat.max_le.mpr ⟨first.levels_le, rest.levels_le⟩

end

theorem SpellsItem.levels_le {allowance : Nat} {tokens : List Token} {item : Item}
    (spelled : SpellsItem allowance tokens item) : item.levels 0 ≤ 8 * allowance := by
  cases spelled with
  | «variable» initialized =>
    cases initialized with
    | none => exact Nat.zero_le _
    | some expression => exact expression.levels_le
  | prototype | external => exact Nat.zero_le _
  | definition signature statements => exact statements.levels_le

theorem SpellsProgram.levels_le {allowance : Nat} {tokens : List Token} {items : List Item}
    (spelled : SpellsProgram allowance tokens items) :
    ∀ item ∈ items, item.levels 0 ≤ 8 * allowance := by
  induction spelled with
  | nil => exact fun _ absent => absurd absent List.not_mem_nil
  | cons first rest inductionHypothesis =>
    exact List.forall_mem_cons.mpr ⟨first.levels_le, inductionHypothesis⟩

/-! ## Chains -/

/-- The marks and names of so many more operands of a sum. -/
def addends : Nat → List Lexeme
  | 0 => []
  | count + 1 => .mark .plus :: .identifier "x" :: addends count

/-- The characters of so many more operands of a sum. -/
def addendText : Nat → List Char
  | 0 => []
  | count + 1 => '+' :: 'x' :: addendText count

/-- Every operand puts the tree that was read so far one level further down. -/
theorem SpellsOperators.addends {allowance : Nat} {level : OperatorLevel}
    {levels : List OperatorLevel} {operator : BinaryOperator}
    (denotes : level .plus = some operator)
    (operand : ∀ span, SpellsOperators allowance levels [⟨.identifier "x", span⟩] (.name "x" span))
    (count : Nat) {before : List Token} {left : Expression}
    (first : SpellsOperators allowance (level :: levels) before left) {tokens : List Token}
    (same : tokens.map Token.lexeme = Syntax.addends count) :
    ∃ result, SpellsOperators allowance (level :: levels) (before ++ tokens) result ∧
      left.levels 1 + count ≤ result.levels 1 := by
  induction count generalizing before left tokens with
  | zero =>
    obtain rfl := List.map_eq_nil_iff.mp same
    exact ⟨left, by rwa [List.append_nil], Nat.le_refl _⟩
  | succ count inductionHypothesis =>
    obtain ⟨⟨_, sign⟩, _, rfl, rfl, behindSign⟩ := List.map_eq_cons_iff.mp same
    obtain ⟨⟨_, span⟩, rest, rfl, rfl, behindName⟩ := List.map_eq_cons_iff.mp behindSign
    obtain ⟨result, spelled, higher⟩ :=
      inductionHypothesis (.apply first denotes (operand span)) behindName
    refine ⟨result, ?_, ?_⟩
    · rw [List.append_assoc] at spelled
      exact spelled
    · simp only [Expression.levels] at higher
      omega

/-- The characters of `int f() {x+x+x;}` with so many operands behind the first one. -/
def sumText (count : Nat) : List Char :=
  "int".toList ++ [' ', 'f', '(', ')', ' ', '{', 'x'] ++ addendText count ++ [';', '}']

theorem spelled_sum {next : Char} {rest : List Char} {lexemes : List Lexeme}
    (spelled : Spelled (next :: rest) lexemes) (ends : isWordPart next = false) (count : Nat) :
    Spelled ('x' :: (addendText count ++ next :: rest))
      (.identifier "x" :: (addends count ++ lexemes)) := by
  have isWord : IsWord ['x'] (.identifier "x") :=
    ⟨⟨'x', [], rfl, by decide, fun _ absent => absurd absent List.not_mem_nil⟩, by decide⟩
  induction count with
  | zero => exact .word isWord ends spelled
  | succ count inductionHypothesis =>
    exact .word isWord (by decide)
      (.mark (fun _ => rfl) (by decide) (by decide) inductionHypothesis)

theorem spelled_sumText (count : Nat) :
    Spelled (sumText count)
      (.keyword .intType :: .identifier "f" :: .mark .openParen :: .mark .closeParen ::
        .mark .openBrace :: .identifier "x" ::
          (addends count ++ [.mark .semicolon, .mark .closeBrace])) := by
  have closing : Spelled [';', '}'] [.mark .semicolon, .mark .closeBrace] :=
    .mark (fun _ => rfl) (by decide) (by decide) (.mark (fun _ => rfl) (by decide) (by decide) .nil)
  have named : IsWord ['f'] (.identifier "f") :=
    ⟨⟨'f', [], rfl, by decide, fun _ absent => absurd absent List.not_mem_nil⟩, by decide⟩
  have body := spelled_sum closing (by decide) count
  rw [sumText, List.append_assoc, List.append_assoc]
  refine .word (isWord_keyword .intType) (by decide) (.blank (by decide) ?_)
  refine .word named (by decide) ?_
  exact .mark (fun _ => rfl) (by decide) (by decide) (.mark (fun _ => rfl) (by decide) (by decide)
    (.blank (by decide) (.mark (fun _ => rfl) (by decide) (by decide) body)))

/-- The lexemes of the text spell a function whose body is as high as the sum is long. -/
theorem spells_sum {count : Nat} {tokens : List Token}
    (same : tokens.map Token.lexeme = .keyword .intType :: .identifier "f" :: .mark .openParen ::
      .mark .closeParen :: .mark .openBrace :: .identifier "x" ::
        (addends count ++ [.mark .semicolon, .mark .closeBrace])) :
    ∃ item, SpellsProgram nestingLimit tokens [item] ∧ count < item.height := by
  obtain ⟨⟨_, start⟩, _, rfl, rfl, behindType⟩ := List.map_eq_cons_iff.mp same
  obtain ⟨⟨_, named⟩, _, rfl, rfl, behindName⟩ := List.map_eq_cons_iff.mp behindType
  obtain ⟨⟨_, opening⟩, _, rfl, rfl, behindOpening⟩ := List.map_eq_cons_iff.mp behindName
  obtain ⟨⟨_, closing⟩, _, rfl, rfl, behindClosing⟩ := List.map_eq_cons_iff.mp behindOpening
  obtain ⟨⟨_, brace⟩, _, rfl, rfl, behindBrace⟩ := List.map_eq_cons_iff.mp behindClosing
  obtain ⟨⟨_, span⟩, _, rfl, rfl, behindFirst⟩ := List.map_eq_cons_iff.mp behindBrace
  obtain ⟨chain, _, rfl, sameChain, sameEnd⟩ := List.map_eq_append_iff.mp behindFirst
  obtain ⟨⟨_, semicolon⟩, _, rfl, rfl, behindSum⟩ := List.map_eq_cons_iff.mp sameEnd
  obtain ⟨⟨_, last⟩, _, rfl, rfl, nothing⟩ := List.map_eq_cons_iff.mp behindSum
  obtain rfl := List.map_eq_nil_iff.mp nothing
  have operand : ∀ span, SpellsOperators 126 (Parser.operatorLevels.drop 5)
      [⟨.identifier "x", span⟩] (.name "x" span) :=
    fun _ => .tighter (.operand (.plain .name))
  have denotes : Parser.operatorLevels[4] .plus = some (.strict .add) := rfl
  obtain ⟨sum, spelled, higher⟩ :=
    SpellsOperators.addends denotes operand count (.tighter (operand span)) sameChain
  have expression : SpellsExpression 127 (⟨.identifier "x", span⟩ :: chain) sum :=
    .value (.tighter (.tighter (.tighter (.tighter spelled))))
  have statements : SpellsStatements nestingLimit
      (⟨.identifier "x", span⟩ :: chain ++ [⟨.mark .semicolon, semicolon⟩] ++ [])
      [.evaluate sum] := .cons (.evaluate expression) .nil
  have signature : SpellsSignature .int "f" [] start
      [⟨.keyword .intType, start⟩, ⟨.identifier "f", named⟩, ⟨.mark .openParen, opening⟩,
        ⟨.mark .closeParen, closing⟩] := .mk .none
  have definition : SpellsItem nestingLimit (_ ++ ⟨_, brace⟩ :: (_ ++ [⟨_, last⟩]))
      (.function .int "f" [] (some [.evaluate sum]) false _) := .definition signature statements
  have program := SpellsProgram.cons definition .nil
  simp only [List.append_nil, List.cons_append, List.nil_append, List.append_assoc] at program
  refine ⟨_, program, ?_⟩
  simp only [Item.height, Item.levels, Statement.listLevels, Statement.levels, Expression.levels]
    at higher ⊢
  omega

/-- There is an accepted text for every height. -/
theorem parseProgram_sumText (count : Nat) :
    ∃ item, parseProgram (String.ofList (sumText count)) = .ok [item] ∧ count < item.height := by
  obtain ⟨tokens, final, same, ended, read⟩ := (spelled_sumText count).ended .first
  obtain ⟨item, program, high⟩ := spells_sum same
  refine ⟨item, ?_, high⟩
  have split : beforeEnd (tokens ++ [final]) = tokens := beforeEnd_append program.unended ended
  have tokenized : tokenize (String.ofList (sumText count)) = .ok (tokens ++ [final]) := by
    rw [tokenize, String.toList_ofList]
    exact read
  simp only [parseProgram, tokenized]
  rw [← split] at program
  exact programOfTokens_eq_ok_iff.mpr program

/-- What nesting bounds in an accepted text is the height without the steps to left operands. The
height itself is as bounded as the longest chain of such steps is: it is no less than the chain,
and the limit together with the chain bounds it. -/
theorem nesting_bounds_all_but_chains {text : String} {items : List Item}
    (accepted : parseProgram text = .ok items) :
    ∀ item ∈ items, item.levels 0 ≤ 8 * nestingLimit ∧ item.chain ≤ item.height ∧
      item.height ≤ 8 * nestingLimit * (item.chain + 1) := by
  unfold parseProgram at accepted
  cases read : tokenize text with
  | error problem =>
    rw [read] at accepted
    cases accepted
  | ok tokens =>
    rw [read] at accepted
    intro item member
    have bounded := (programOfTokens_eq_ok_iff.mp accepted).levels_le item member
    exact ⟨bounded, item.chain_le_height,
      Nat.le_trans item.height_le_mul (Nat.mul_le_mul_right _ bounded)⟩

/-- The tree of a long sum is higher than nesting alone could make it, and a chain in it is the
reason. -/
theorem a_sum_outgrows_nesting :
    ∃ item, parseProgram (String.ofList (sumText (8 * nestingLimit))) = .ok [item] ∧
      item.levels 0 ≤ 8 * nestingLimit ∧ 8 * nestingLimit < item.height ∧ 0 < item.chain := by
  obtain ⟨item, accepted, high⟩ := parseProgram_sumText (8 * nestingLimit)
  obtain ⟨bounded, -, limited⟩ :=
    nesting_bounds_all_but_chains accepted item List.mem_cons_self
  refine ⟨item, accepted, bounded, high, Nat.pos_of_ne_zero fun unchained => ?_⟩
  rw [unchained] at limited
  omega

/-- Chains spend no nesting, so that no bound holds of the trees of all accepted texts. -/
theorem heights_are_unbounded :
    ¬∃ bound, ∀ text items, parseProgram text = .ok items →
      ∀ item ∈ items, item.height ≤ bound := by
  rintro ⟨bound, bounds⟩
  obtain ⟨item, accepted, high⟩ := parseProgram_sumText bound
  exact Nat.not_le_of_lt high (bounds _ _ accepted item List.mem_cons_self)

end IncrementalC.Syntax
