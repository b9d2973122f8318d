import IncrementalC.Input.Balance
import IncrementalC.Proofs.Syntax.Braces

/-!
Contract: brackets in the phrases of the language.

A phrase closes the brackets it opens, each behind its opening one. So who counts open brackets
counts as many behind a phrase as before it, and comes through it whatever is open.

Owns:
- counting brackets through texts that follow one another, and with others open around them;
- the brackets of tokens, and that programs leave the count as it was.

Does not own: brackets in comments and quotations.
-/

namespace IncrementalC

/-! ## Counting -/

namespace Input.OpenBrackets

variable {opened after around : OpenBrackets} {characters : List Char}

theorem readAll?_append (opened : OpenBrackets) (before behind : List Char) :
    opened.readAll? (before ++ behind) =
      (opened.readAll? before).bind fun next => next.readAll? behind := by
  induction before generalizing opened with
  | nil => rfl
  | cons character before inductionHypothesis =>
    rw [List.cons_append, readAll?, readAll?]
    cases opened.read? character with
    | none => rfl
    | some next => exact inductionHypothesis next

/-- The brackets of both. -/
def add (opened around : OpenBrackets) : OpenBrackets :=
  ⟨opened.braces + around.braces, opened.squares + around.squares, opened.parens + around.parens⟩

theorem none_add (around : OpenBrackets) : none.add around = around := by
  simp [none, add]

theorem read?_add {character : Char} (read : opened.read? character = some after) :
    (opened.add around).read? character = some (after.add around) := by
  simp only [read?] at read ⊢
  split at read <;> grind [add]

/-- Brackets that are open around a text are open behind it too. -/
theorem readAll?_add (read : opened.readAll? characters = some after) :
    (opened.add around).readAll? characters = some (after.add around) := by
  induction characters generalizing opened with
  | nil =>
    cases read
    rfl
  | cons character rest inductionHypothesis =>
    rw [readAll?] at read ⊢
    cases next : opened.read? character with
    | none =>
      rw [next] at read
      cases read
    | some between =>
      rw [next] at read
      rw [read?_add next]
      exact inductionHypothesis read

end Input.OpenBrackets

namespace Syntax

open Input (OpenBrackets)

/-- The bracket that a lexeme is, if it is one. -/
def bracketOf : Lexeme → List Char
  | .mark .openParen => ['(']
  | .mark .closeParen => [')']
  | .mark .openBrace => ['{']
  | .mark .closeBrace => ['}']
  | _ => []

/-- The brackets among the tokens. -/
def brackets (tokens : List Token) : List Char :=
  tokens.flatMap fun token => bracketOf token.lexeme

@[simp] theorem brackets_nil : brackets [] = [] := rfl

@[simp] theorem brackets_cons (token : Token) (rest : List Token) :
    brackets (token :: rest) = bracketOf token.lexeme ++ brackets rest := rfl

@[simp] theorem brackets_append (before after : List Token) :
    brackets (before ++ after) = brackets before ++ brackets after :=
  List.flatMap_append

/-- The count of open braces is their depth. -/
theorem braces_of_readAll? {tokens : List Token} {opened after : OpenBrackets}
    (read : opened.readAll? (brackets tokens) = some after) :
    (after.braces : Int) = opened.braces + braceDepth tokens := by
  induction tokens generalizing opened with
  | nil =>
    cases read
    exact (Int.add_zero _).symm
  | cons token rest inductionHypothesis =>
    rw [brackets_cons, OpenBrackets.readAll?_append, Option.bind_eq_some_iff] at read
    obtain ⟨next, first, behind⟩ := read
    rw [inductionHypothesis behind, braceDepth_cons]
    unfold bracketOf at first
    unfold braceStep
    split at first <;> simp only [OpenBrackets.readAll?, OpenBrackets.read?] at first <;> grind

/-- Whatever is open before the tokens is open behind them. -/
def Settles (tokens : List Token) : Prop :=
  ∀ opened : OpenBrackets, opened.readAll? (brackets tokens) = some opened

namespace Settles

theorem nil : Settles [] := fun _ => rfl

theorem append {before after : List Token} (first : Settles before) (second : Settles after) :
    Settles (before ++ after) := by
  intro opened
  rw [brackets_append, OpenBrackets.readAll?_append, first opened]
  exact second opened

/-- A token that is no bracket changes nothing. -/
theorem cons {token : Token} {rest : List Token} (plain : bracketOf token.lexeme = [])
    (settles : Settles rest) : Settles (token :: rest) := by
  intro opened
  rw [brackets_cons, plain]
  exact settles opened

theorem single {token : Token} (plain : bracketOf token.lexeme = []) : Settles [token] :=
  .cons plain .nil

/-- Tokens in parentheses. -/
theorem parens {tokens : List Token} (settles : Settles tokens) (opening closing : Span) :
    Settles (⟨.mark .openParen, opening⟩ :: (tokens ++ [⟨.mark .closeParen, closing⟩])) := by
  intro opened
  simp [bracketOf, OpenBrackets.readAll?_append, OpenBrackets.readAll?, OpenBrackets.read?,
    settles { opened with parens := opened.parens + 1 }]

/-- Tokens in braces. -/
theorem braces {tokens : List Token} (settles : Settles tokens) (opening closing : Span) :
    Settles (⟨.mark .openBrace, opening⟩ :: (tokens ++ [⟨.mark .closeBrace, closing⟩])) := by
  intro opened
  simp [bracketOf, OpenBrackets.readAll?_append, OpenBrackets.readAll?, OpenBrackets.read?,
    settles { opened with braces := opened.braces + 1 }]

theorem level {tokens : List Token} (settles : Settles tokens) : braceDepth tokens = 0 := by
  have same := braces_of_readAll? (settles .none)
  omega

end Settles

/-! ## Expressions -/

theorem bracketOf_operator {level : Parser.OperatorLevel} (known : level ∈ Parser.operatorLevels)
    {symbol : Mark} {operator : BinaryOperator} (denotes : level symbol = some operator) :
    bracketOf (.mark symbol) = [] := by
  simp only [Parser.operatorLevels, List.mem_cons, List.not_mem_nil, or_false] at known
  rcases known with rfl | rfl | rfl | rfl | rfl | rfl <;> cases symbol <;>
    first | rfl | cases denotes

mutual

theorem SpellsExpression.settles {allowance : Nat} {tokens : List Token} {result : Expression} :
    SpellsExpression allowance tokens result → Settles tokens
  | .value operators => operators.settles (List.Subset.refl _)
  | .assign assigned assigns =>
    (assigned.settles (List.Subset.refl _)).append (.cons rfl assigns.settles)

theorem SpellsOperators.settles {allowance : Nat} {levels : List Parser.OperatorLevel}
    {tokens : List Token} {result : Expression} (known : levels ⊆ Parser.operatorLevels) :
    SpellsOperators allowance levels tokens result → Settles tokens
  | .operand single => single.settles
  | .tighter operators => operators.settles fun _ member => known (List.mem_cons_of_mem _ member)
  | .apply first denotes second =>
    (first.settles known).append (.cons (bracketOf_operator (known List.mem_cons_self) denotes)
      (second.settles fun _ member => known (List.mem_cons_of_mem _ member)))

theorem SpellsOperand.settles {allowance : Nat} {tokens : List Token} {result : Expression} :
    SpellsOperand allowance tokens result → Settles tokens
  | .plain primary => primary.settles
  | .negate operand => .cons rfl operand.settles
  | .not operand => .cons rfl operand.settles

theorem SpellsPrimary.settles {allowance : Nat} {tokens : List Token} {result : Expression} :
    SpellsPrimary allowance tokens result → Settles tokens
  | .integer => .single rfl
  | .name => .single rfl
  | .call => .cons rfl (Settles.nil.parens _ _)
  | .callWith given => .cons rfl (given.settles.parens _ _)
  | .group expression => expression.settles.parens _ _

theorem SpellsArguments.settles {allowance : Nat} {tokens : List Token}
    {values : List Expression} : SpellsArguments allowance tokens values → Settles tokens
  | .last expression => expression.settles
  | .more expression rest => expression.settles.append (.cons rfl rest.settles)

end

theorem SpellsInitial.settles {allowance : Nat} {tokens : List Token}
    {initial : Option Expression} (initialized : SpellsInitial allowance tokens initial) :
    Settles tokens := by
  cases initialized with
  | none => exact .nil
  | some expression => exact .cons rfl expression.settles

theorem SpellsCondition.settles {allowance : Nat} {tokens : List Token} {value : Expression}
    (condition : SpellsCondition allowance tokens value) : Settles tokens := by
  cases condition with
  | parentheses expression => exact expression.settles.parens _ _

/-! ## Statements -/

mutual

theorem SpellsStatement.settles {allowance : Nat} {dangling : Bool} {tokens : List Token}
    {result : Statement} : SpellsStatement allowance dangling tokens result → Settles tokens
  | .declare _ initialized => .cons rfl (.cons rfl (initialized.settles.append (.single rfl)))
  | .evaluate expression => expression.settles.append (.single rfl)
  | .choose condition branch => .cons rfl (condition.settles.append branch.settles)
  | .chooseElse condition branch other =>
    .cons rfl (condition.settles.append (branch.settles.append (.cons rfl other.settles)))
  | .loop condition repeated => .cons rfl (condition.settles.append repeated.settles)
  | .leave => .cons rfl (.single rfl)
  | .leaveWith expression => .cons rfl (expression.settles.append (.single rfl))
  | .block statements => statements.settles.braces _ _
  | .empty => .single rfl

theorem SpellsStatements.settles {allowance : Nat} {tokens : List Token}
    {result : List Statement} : SpellsStatements allowance tokens result → Settles tokens
  | .nil => .nil
  | .cons first rest => first.settles.append rest.settles

end

/-! ## Programs -/

theorem SpellsParameterList.settles {tokens : List Token} {list : List Parameter}
    (spelled : SpellsParameterList tokens list) : Settles tokens := by
  induction spelled with
  | last => exact .cons rfl (.single rfl)
  | more rest inductionHypothesis => exact .cons rfl (.cons rfl (.cons rfl inductionHypothesis))

theorem SpellsSignature.settles {returns : TypeName} {name : String} {list : List Parameter}
    {start : Span} {tokens : List Token}
    (signature : SpellsSignature returns name list start tokens) : Settles tokens := by
  obtain ⟨none | void | list⟩ := signature
  · exact .cons rfl (.cons rfl (Settles.nil.parens _ _))
  · exact .cons rfl (.cons rfl ((Settles.single rfl).parens _ _))
  · exact .cons rfl (.cons rfl (list.settles.parens _ _))

theorem SpellsItem.settles {allowance : Nat} {tokens : List Token} {result : Item}
    (spelled : SpellsItem allowance tokens result) : Settles tokens := by
  cases spelled with
  | «variable» initialized =>
    exact .cons rfl (.cons rfl (initialized.settles.append (.single rfl)))
  | prototype signature => exact signature.settles.append (.single rfl)
  | external signature => exact .cons rfl (signature.settles.append (.single rfl))
  | definition signature statements =>
    exact signature.settles.append (statements.settles.braces _ _)

/-- Programs open and close the same brackets. -/
theorem SpellsProgram.settles {allowance : Nat} {tokens : List Token} {items : List Item}
    (spelled : SpellsProgram allowance tokens items) : Settles tokens := by
  induction spelled with
  | nil => exact .nil
  | cons first rest inductionHypothesis => exact first.settles.append inductionHypothesis

end Syntax

end IncrementalC
