import IncrementalC.Analysis.Program

/-!
Contract: what lowering reads of a declaration table.

Lowering asks of a name only whether it is declared, as what, and with which arity and
return kind. Tables that agree on this are lowered against alike; in particular the
transaction that holds a body plays no part.

Owns: agreement of tables, and that lowering respects it.

Does not own: which tables agree.
-/

namespace IncrementalC

/-- What two look-ups have to agree on: everything but where a body stands. -/
inductive SameSense : Option DeclarationKind → Option DeclarationKind → Prop where
  | undeclared : SameSense none none
  | variable : SameSense (some .variable) (some .variable)
  | function (arity : Nat) (returns : ReturnKind) (left right : Option TransactionId) :
      SameSense (some (.function arity returns left)) (some (.function arity returns right))

/-- Two tables agree on every name. -/
def DeclarationTable.AgreesWith (left right : DeclarationTable) : Prop :=
  ∀ name, SameSense ((left.lookup name).map DeclarationRecord.kind)
    ((right.lookup name).map DeclarationRecord.kind)

namespace Analysis

open Syntax (Expression Statement Parameter)

variable {left right : DeclarationTable}

theorem isSome_lookup_congr (agree : left.AgreesWith right) (name : String) :
    (left.lookup name).isSome = (right.lookup name).isSome := by
  have sense := agree name
  have declared : ∀ found : Option DeclarationRecord,
      found.isSome = (found.map DeclarationRecord.kind).isSome := fun found => by simp
  rw [declared (left.lookup name), declared (right.lookup name)]
  generalize (left.lookup name).map DeclarationRecord.kind = leftKind at sense ⊢
  generalize (right.lookup name).map DeclarationRecord.kind = rightKind at sense ⊢
  cases sense <;> rfl

/-! ## Expressions -/

theorem lowerName_congr (agree : left.AgreesWith right) (frames : Frames) (name : String)
    (span : Span) : lowerName left frames name span = lowerName right frames name span := by
  have sense := agree name
  unfold lowerName
  generalize (left.lookup name).map DeclarationRecord.kind = leftKind at sense ⊢
  generalize (right.lookup name).map DeclarationRecord.kind = rightKind at sense ⊢
  cases sense <;> rfl

theorem lowerAssignment_congr (agree : left.AgreesWith right) (frames : Frames)
    (target : Expression) (value : Code.Expression) :
    lowerAssignment left frames target value = lowerAssignment right frames target value := by
  cases target with
  | name name span =>
    have sense := agree name
    simp only [lowerAssignment]
    generalize (left.lookup name).map DeclarationRecord.kind = leftKind at sense ⊢
    generalize (right.lookup name).map DeclarationRecord.kind = rightKind at sense ⊢
    cases sense <;> rfl
  | integer value span | assign target value span | call callee arguments span
  | unary operator operand span | binary operator left right span => rfl

theorem atExitFunction?_congr (agree : left.AgreesWith right) (target : Expression) :
    atExitFunction? left target = atExitFunction? right target := by
  cases target with
  | name name span =>
    have sense := agree name
    simp only [atExitFunction?]
    generalize (left.lookup name).map DeclarationRecord.kind = leftKind at sense ⊢
    generalize (right.lookup name).map DeclarationRecord.kind = rightKind at sense ⊢
    cases sense <;> rfl
  | integer value span | assign target value span | call callee arguments span
  | unary operator operand span | binary operator left right span => rfl

theorem resolveCallee_congr (agree : left.AgreesWith right) (frames : Frames) (name : String) :
    resolveCallee left frames name = resolveCallee right frames name := by
  have sense := agree name
  unfold resolveCallee
  generalize (left.lookup name).map DeclarationRecord.kind = leftKind at sense ⊢
  generalize (right.lookup name).map DeclarationRecord.kind = rightKind at sense ⊢
  cases sense <;> rfl

mutual

theorem lowerExpression_congr (agree : left.AgreesWith right) (frames : Frames) :
    ∀ expression, lowerExpression left frames expression = lowerExpression right frames expression
  | .integer value span => by simp only [lowerExpression]
  | .name name span => by simp only [lowerExpression, lowerName_congr agree]
  | .assign target value span => by
    simp only [lowerExpression, lowerExpression_congr agree frames value,
      lowerAssignment_congr agree]
  | .call callee [] span => by
    simp only [lowerExpression, resolveCallee_congr agree, lowerArguments]
  | .call callee (target :: rest) span => by
    simp only [lowerExpression, resolveCallee_congr agree, atExitFunction?_congr agree,
      lowerArguments_congr agree frames (target :: rest), lowerArguments_congr agree frames rest]
  | .unary operator operand span => by
    simp only [lowerExpression, lowerExpression_congr agree frames operand]
  | .binary operator first second span => by
    simp only [lowerExpression, lowerExpression_congr agree frames first,
      lowerExpression_congr agree frames second]

theorem lowerArguments_congr (agree : left.AgreesWith right) (frames : Frames) :
    ∀ arguments, lowerArguments left frames arguments = lowerArguments right frames arguments
  | [] => by simp only [lowerArguments]
  | argument :: rest => by
    simp only [lowerArguments, lowerExpression_congr agree frames argument,
      lowerArguments_congr agree frames rest]

end

theorem lowerInt_congr (agree : left.AgreesWith right) (frames : Frames)
    (expression : Expression) :
    lowerInt left frames expression = lowerInt right frames expression := by
  simp only [lowerInt, lowerExpression_congr agree]

/-! ## Statements -/

theorem warnShadowing_congr (agree : left.AgreesWith right) (name : String) (span : Span) :
    warnShadowing left name span = warnShadowing right name span := by
  simp only [warnShadowing, isSome_lookup_congr agree]

theorem lowerReturn_congr (agree : left.AgreesWith right) (scope : Scope)
    (value : Option Expression) (span : Span) :
    lowerReturn left scope value span = lowerReturn right scope value span := by
  cases value <;> simp only [lowerReturn, lowerExpression_congr agree]

theorem lowerLocal_congr (agree : left.AgreesWith right) (scope : Scope)
    (type : Syntax.TypeName) (name : String) (initial : Option Expression) (span : Span) :
    lowerLocal left scope type name initial span =
      lowerLocal right scope type name initial span := by
  cases initial <;> simp only [lowerLocal, lowerInt_congr agree, warnShadowing_congr agree]

mutual

theorem lowerStatement_congr (agree : left.AgreesWith right) (scope : Scope) :
    ∀ statement, lowerStatement left scope statement = lowerStatement right scope statement
  | .declare type name initial span => by
    simp only [lowerStatement, lowerLocal_congr agree]
  | .evaluate value => by simp only [lowerStatement, lowerExpression_congr agree]
  | .choose condition whenTrue whenFalse => by
    simp only [lowerStatement, lowerInt_congr agree, lowerBlock_congr agree _ whenTrue,
      lowerBlock_congr agree _ whenFalse]
  | .loop condition body => by
    simp only [lowerStatement, lowerInt_congr agree, lowerBlock_congr agree _ body]
  | .leave value span => by simp only [lowerStatement, lowerReturn_congr agree]
  | .block body => by simp only [lowerStatement, lowerBlock_congr agree _ body]
  | .empty => by simp only [lowerStatement]

theorem lowerBlock_congr (agree : left.AgreesWith right) (scope : Scope) :
    ∀ statements, lowerBlock left scope statements = lowerBlock right scope statements
  | [] => by simp only [lowerBlock]
  | head :: tail => by
    simp only [lowerBlock, lowerStatement_congr agree _ head, lowerBlock_congr agree _ tail]

end

/-! ## Functions -/

theorem bindParameters_congr (agree : left.AgreesWith right) (scope : Scope)
    (parameters : List Parameter) :
    bindParameters left scope parameters = bindParameters right scope parameters := by
  induction parameters generalizing scope with
  | nil => rfl
  | cons parameter rest inductionHypothesis =>
    simp only [bindParameters, warnShadowing_congr agree, inductionHypothesis]

theorem lowerBody_congr (agree : left.AgreesWith right) (stated : Option ReturnKind)
    (parameters : List Parameter) (body : List Statement) :
    lowerBody left stated parameters body = lowerBody right stated parameters body := by
  simp only [lowerBody, bindParameters_congr agree, lowerBlock_congr agree]

end Analysis

end IncrementalC
