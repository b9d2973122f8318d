import IncrementalC.Syntax.Parser

/-!
Contract: the grammar of the language.

A relation for each kind of phrase says which tokens spell which tree. Statements,
expressions and the operands of unary operators are levels of nesting; the `allowance`
of a phrase is how many levels there may be, the one of the phrase included.

An `else` belongs to the nearest `if` that has none. A statement is `dangling` when it
ends in an `if` without an `else`, and such a statement cannot stand before an `else`.

Owns: the phrases of the language, and the tree that each of them spells.

Does not own: how a phrase is found.
-/

namespace IncrementalC.Syntax

/-- The word for a type. -/
def TypeName.keyword : TypeName → Keyword
  | .int => .intType
  | .void => .voidType
  | .auto => .autoType

/-! ## Expressions -/

mutual

/-- An expression: operators, or an assignment, which groups to the right. -/
inductive SpellsExpression : (allowance : Nat) → List Token → Expression → Prop where
  | value {allowance : Nat} {tokens : List Token} {result : Expression}
      (operators : SpellsOperators allowance Parser.operatorLevels tokens result) :
      SpellsExpression (allowance + 1) tokens result
  | assign {allowance : Nat} {left right : List Token} {target value : Expression} {sign : Span}
      (assigned : SpellsOperators allowance Parser.operatorLevels left target)
      (assigns : SpellsExpression allowance right value) :
      SpellsExpression (allowance + 1) (left ++ ⟨.mark .assign, sign⟩ :: right)
        (.assign target value (target.span.through value.span))

/-- Binary operators of the given precedences, loosest first. Those of one precedence
group to the left. -/
inductive SpellsOperators : (allowance : Nat) → List Parser.OperatorLevel → List Token →
    Expression → Prop where
  | operand {allowance : Nat} {tokens : List Token} {result : Expression}
      (single : SpellsOperand allowance tokens result) :
      SpellsOperators allowance [] tokens result
  | tighter {allowance : Nat} {level : Parser.OperatorLevel}
      {levels : List Parser.OperatorLevel} {tokens : List Token} {result : Expression}
      (operators : SpellsOperators allowance levels tokens result) :
      SpellsOperators allowance (level :: levels) tokens result
  | apply {allowance : Nat} {level : Parser.OperatorLevel} {levels : List Parser.OperatorLevel}
      {before after : List Token} {left right : Expression} {symbol : Mark}
      {operator : BinaryOperator} {sign : Span}
      (first : SpellsOperators allowance (level :: levels) before left)
      (denotes : level symbol = some operator)
      (second : SpellsOperators allowance levels after right) :
      SpellsOperators allowance (level :: levels) (before ++ ⟨.mark symbol, sign⟩ :: after)
        (.binary operator left right (left.span.through right.span))

/-- An operand, with the unary operators before it. -/
inductive SpellsOperand : (allowance : Nat) → List Token → Expression → Prop where
  | plain {allowance : Nat} {tokens : List Token} {result : Expression}
      (primary : SpellsPrimary allowance tokens result) : SpellsOperand allowance tokens result
  | negate {allowance : Nat} {tokens : List Token} {inner : Expression} {sign : Span}
      (operand : SpellsOperand allowance tokens inner) :
      SpellsOperand (allowance + 1) (⟨.mark .minus, sign⟩ :: tokens)
        (.unary .negate inner (sign.through inner.span))
  | not {allowance : Nat} {tokens : List Token} {inner : Expression} {sign : Span}
      (operand : SpellsOperand allowance tokens inner) :
      SpellsOperand (allowance + 1) (⟨.mark .bang, sign⟩ :: tokens)
        (.unary .not inner (sign.through inner.span))

/-- An integer, a name, a call, or an expression in parentheses. -/
inductive SpellsPrimary : (allowance : Nat) → List Token → Expression → Prop where
  | integer {allowance : Nat} {value : Int64} {span : Span} :
      SpellsPrimary allowance [⟨.integer value, span⟩] (.integer value span)
  | name {allowance : Nat} {name : String} {span : Span} :
      SpellsPrimary allowance [⟨.identifier name, span⟩] (.name name span)
  | call {allowance : Nat} {callee : String} {start opening closing : Span} :
      SpellsPrimary allowance
        [⟨.identifier callee, start⟩, ⟨.mark .openParen, opening⟩, ⟨.mark .closeParen, closing⟩]
        (.call callee [] (start.through closing))
  | callWith {allowance : Nat} {callee : String} {start opening closing : Span}
      {tokens : List Token} {values : List Expression}
      (given : SpellsArguments allowance tokens values) :
      SpellsPrimary allowance
        (⟨.identifier callee, start⟩ :: ⟨.mark .openParen, opening⟩ ::
          (tokens ++ [⟨.mark .closeParen, closing⟩]))
        (.call callee values (start.through closing))
  | group {allowance : Nat} {opening closing : Span} {tokens : List Token} {inner : Expression}
      (expression : SpellsExpression allowance tokens inner) :
      SpellsPrimary allowance
        (⟨.mark .openParen, opening⟩ :: (tokens ++ [⟨.mark .closeParen, closing⟩])) inner

/-- One or more arguments, with commas between them. -/
inductive SpellsArguments : (allowance : Nat) → List Token → List Expression → Prop where
  | last {allowance : Nat} {tokens : List Token} {value : Expression}
      (expression : SpellsExpression allowance tokens value) :
      SpellsArguments allowance tokens [value]
  | more {allowance : Nat} {tokens others : List Token} {value : Expression}
      {values : List Expression} {comma : Span}
      (expression : SpellsExpression allowance tokens value)
      (rest : SpellsArguments allowance others values) :
      SpellsArguments allowance (tokens ++ ⟨.mark .comma, comma⟩ :: others) (value :: values)

end

/-- The initial value of a variable, if it has one. -/
inductive SpellsInitial (allowance : Nat) : List Token → Option Expression → Prop where
  | none : SpellsInitial allowance [] none
  | some {tokens : List Token} {value : Expression} {sign : Span}
      (expression : SpellsExpression allowance tokens value) :
      SpellsInitial allowance (⟨.mark .assign, sign⟩ :: tokens) (some value)

/-- A condition in parentheses. -/
inductive SpellsCondition (allowance : Nat) : List Token → Expression → Prop where
  | parentheses {tokens : List Token} {value : Expression} {opening closing : Span}
      (expression : SpellsExpression allowance tokens value) :
      SpellsCondition allowance
        (⟨.mark .openParen, opening⟩ :: (tokens ++ [⟨.mark .closeParen, closing⟩])) value

/-! ## Statements -/

mutual

/-- A statement, which may be `dangling`. Local variables are of type `int`, or wrongly
of type `void`, never `auto` or external. -/
inductive SpellsStatement : (allowance : Nat) → (dangling : Bool) → List Token → Statement →
    Prop where
  | declare {allowance : Nat} {type : TypeName} {name : String} {start named closing : Span}
      {tokens : List Token} {initial : Option Expression} (stated : type ≠ .auto)
      (initialized : SpellsInitial allowance tokens initial) :
      SpellsStatement (allowance + 1) false
        (⟨.keyword type.keyword, start⟩ :: ⟨.identifier name, named⟩ ::
          (tokens ++ [⟨.mark .semicolon, closing⟩]))
        (.declare type name initial (start.through closing))
  | evaluate {allowance : Nat} {closing : Span} {tokens : List Token} {value : Expression}
      (expression : SpellsExpression allowance tokens value) :
      SpellsStatement (allowance + 1) false (tokens ++ [⟨.mark .semicolon, closing⟩])
        (.evaluate value)
  | choose {allowance : Nat} {dangling : Bool} {start : Span} {tested tokens : List Token}
      {test : Expression} {whenTrue : Statement}
      (condition : SpellsCondition allowance tested test)
      (branch : SpellsStatement allowance dangling tokens whenTrue) :
      SpellsStatement (allowance + 1) true (⟨.keyword .ifWord, start⟩ :: (tested ++ tokens))
        (.choose test (Parser.branchBody whenTrue) [])
  | chooseElse {allowance : Nat} {dangling : Bool} {start between : Span}
      {tested tokens others : List Token} {test : Expression} {whenTrue whenFalse : Statement}
      (condition : SpellsCondition allowance tested test)
      (branch : SpellsStatement allowance false tokens whenTrue)
      (other : SpellsStatement allowance dangling others whenFalse) :
      SpellsStatement (allowance + 1) dangling
        (⟨.keyword .ifWord, start⟩ ::
          (tested ++ (tokens ++ ⟨.keyword .elseWord, between⟩ :: others)))
        (.choose test (Parser.branchBody whenTrue) (Parser.branchBody whenFalse))
  | loop {allowance : Nat} {dangling : Bool} {start : Span} {tested tokens : List Token}
      {test : Expression} {body : Statement}
      (condition : SpellsCondition allowance tested test)
      (repeated : SpellsStatement allowance dangling tokens body) :
      SpellsStatement (allowance + 1) dangling
        (⟨.keyword .whileWord, start⟩ :: (tested ++ tokens))
        (.loop test (Parser.branchBody body))
  | leave {allowance : Nat} {start closing : Span} :
      SpellsStatement (allowance + 1) false
        [⟨.keyword .returnWord, start⟩, ⟨.mark .semicolon, closing⟩]
        (.leave none (start.through closing))
  | leaveWith {allowance : Nat} {start closing : Span} {tokens : List Token} {value : Expression}
      (expression : SpellsExpression allowance tokens value) :
      SpellsStatement (allowance + 1) false
        (⟨.keyword .returnWord, start⟩ :: (tokens ++ [⟨.mark .semicolon, closing⟩]))
        (.leave (some value) (start.through closing))
  | block {allowance : Nat} {opening closing : Span} {tokens : List Token}
      {body : List Statement} (statements : SpellsStatements allowance tokens body) :
      SpellsStatement (allowance + 1) false
        (⟨.mark .openBrace, opening⟩ :: (tokens ++ [⟨.mark .closeBrace, closing⟩])) (.block body)
  | empty {allowance : Nat} {closing : Span} :
      SpellsStatement (allowance + 1) false [⟨.mark .semicolon, closing⟩] .empty

/-- Statements one after the other. -/
inductive SpellsStatements : (allowance : Nat) → List Token → List Statement → Prop where
  | nil {allowance : Nat} : SpellsStatements allowance [] []
  | cons {allowance : Nat} {dangling : Bool} {tokens others : List Token} {head : Statement}
      {tail : List Statement} (first : SpellsStatement allowance dangling tokens head)
      (rest : SpellsStatements allowance others tail) :
      SpellsStatements allowance (tokens ++ others) (head :: tail)

end

/-! ## Items -/

/-- One or more parameters, with commas between them. -/
inductive SpellsParameterList : List Token → List Parameter → Prop where
  | last {type : TypeName} {name : String} {start stop : Span} :
      SpellsParameterList [⟨.keyword type.keyword, start⟩, ⟨.identifier name, stop⟩]
        [⟨type, name, start.through stop⟩]
  | more {type : TypeName} {name : String} {start stop comma : Span} {tokens : List Token}
      {list : List Parameter} (rest : SpellsParameterList tokens list) :
      SpellsParameterList
        (⟨.keyword type.keyword, start⟩ :: ⟨.identifier name, stop⟩ ::
          ⟨.mark .comma, comma⟩ :: tokens)
        (⟨type, name, start.through stop⟩ :: list)

/-- What stands between the parentheses of a function. That there are no parameters may
be written `void`. -/
inductive SpellsParameters : List Token → List Parameter → Prop where
  | none : SpellsParameters [] []
  | void {span : Span} : SpellsParameters [⟨.keyword .voidType, span⟩] []
  | list {tokens : List Token} {parameters : List Parameter}
      (spelled : SpellsParameterList tokens parameters) : SpellsParameters tokens parameters

/-- A type, a name, and parameters in parentheses. -/
inductive SpellsSignature (returns : TypeName) (name : String) (parameters : List Parameter)
    (start : Span) : List Token → Prop where
  | mk {named opening closing : Span} {tokens : List Token}
      (spelled : SpellsParameters tokens parameters) :
      SpellsSignature returns name parameters start
        (⟨.keyword returns.keyword, start⟩ :: ⟨.identifier name, named⟩ ::
          ⟨.mark .openParen, opening⟩ :: (tokens ++ [⟨.mark .closeParen, closing⟩]))

/-- A top-level declaration. Only prototypes can be external. -/
inductive SpellsItem (allowance : Nat) : List Token → Item → Prop where
  | variable {type : TypeName} {name : String} {start named closing : Span}
      {tokens : List Token} {initial : Option Expression}
      (initialized : SpellsInitial allowance tokens initial) :
      SpellsItem allowance
        (⟨.keyword type.keyword, start⟩ :: ⟨.identifier name, named⟩ ::
          (tokens ++ [⟨.mark .semicolon, closing⟩]))
        (.variable type name initial (start.through closing))
  | prototype {returns : TypeName} {name : String} {parameters : List Parameter}
      {start closing : Span} {tokens : List Token}
      (signature : SpellsSignature returns name parameters start tokens) :
      SpellsItem allowance (tokens ++ [⟨.mark .semicolon, closing⟩])
        (.function returns name parameters none false (start.through closing))
  | external {returns : TypeName} {name : String} {parameters : List Parameter}
      {start typed closing : Span} {tokens : List Token}
      (signature : SpellsSignature returns name parameters typed tokens) :
      SpellsItem allowance
        (⟨.keyword .externWord, start⟩ :: (tokens ++ [⟨.mark .semicolon, closing⟩]))
        (.function returns name parameters none true (start.through closing))
  | definition {returns : TypeName} {name : String} {parameters : List Parameter}
      {body : List Statement} {start opening closing : Span} {tokens inner : List Token}
      (signature : SpellsSignature returns name parameters start tokens)
      (statements : SpellsStatements allowance inner body) :
      SpellsItem allowance
        (tokens ++ ⟨.mark .openBrace, opening⟩ :: (inner ++ [⟨.mark .closeBrace, closing⟩]))
        (.function returns name parameters (some body) false (start.through opening))

/-- Top-level declarations one after the other. -/
inductive SpellsProgram (allowance : Nat) : List Token → List Item → Prop where
  | nil : SpellsProgram allowance [] []
  | cons {tokens others : List Token} {head : Item} {tail : List Item}
      (first : SpellsItem allowance tokens head) (rest : SpellsProgram allowance others tail) :
      SpellsProgram allowance (tokens ++ others) (head :: tail)

/-- The tokens before the end of input. -/
def beforeEnd (tokens : List Token) : List Token :=
  tokens.takeWhile fun token => token.lexeme ≠ .endOfInput

end IncrementalC.Syntax
