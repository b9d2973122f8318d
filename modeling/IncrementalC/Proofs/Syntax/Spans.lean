import IncrementalC.Proofs.Token.Stretches
import IncrementalC.Syntax.Grammar

/-!
Contract: the places that a tree says its parts stand at.

Every span in a tree goes from the start of one of the tokens that spell the tree to the end of the
same or of a later one.

Owns: the spans of a tree, and that they are stretches of the tokens that spell it.

Does not own: where tokens stand.
-/

namespace IncrementalC.Syntax

/-! ## Spans of trees -/

mutual

/-- The spans of an expression and of its parts. -/
def Expression.spans : Expression → List Span
  | .integer _ span | .name _ span => [span]
  | .assign target value span => span :: (target.spans ++ value.spans)
  | .call _ arguments span => span :: spansOfExpressions arguments
  | .unary _ operand span => span :: operand.spans
  | .binary _ left right span => span :: (left.spans ++ right.spans)

def spansOfExpressions : List Expression → List Span
  | [] => []
  | head :: tail => head.spans ++ spansOfExpressions tail

end

/-- The spans of an expression that may be missing. -/
def spansOfInitial : Option Expression → List Span
  | none => []
  | some value => value.spans

mutual

/-- The spans of a statement and of its parts. -/
def Statement.spans : Statement → List Span
  | .declare _ _ initial span => span :: spansOfInitial initial
  | .evaluate value => value.spans
  | .choose condition whenTrue whenFalse =>
    condition.spans ++ (spansOfStatements whenTrue ++ spansOfStatements whenFalse)
  | .loop condition body => condition.spans ++ spansOfStatements body
  | .leave value span => span :: spansOfInitial value
  | .block body => spansOfStatements body
  | .empty => []

def spansOfStatements : List Statement → List Span
  | [] => []
  | head :: tail => head.spans ++ spansOfStatements tail

end

/-- The spans of an item and of its parts. -/
def Item.spans : Item → List Span
  | .variable _ _ initial span => span :: spansOfInitial initial
  | .function _ _ parameters body _ span =>
    span :: (parameters.map Parameter.span ++ spansOfStatements (body.getD []))

/-- The spans of a program. -/
def spansOfItems (items : List Item) : List Span := items.flatMap Item.spans

theorem Expression.span_mem_spans (expression : Expression) :
    expression.span ∈ expression.spans := by
  cases expression <;> simp [Expression.span, Expression.spans]

/-- A branch has the spans of the statement that it is. -/
theorem spans_branchBody (branch : Statement) :
    spansOfStatements (Parser.branchBody branch) = branch.spans := by
  unfold Parser.branchBody
  split
  · rw [Statement.spans]
  · rw [spansOfStatements, spansOfStatements, List.append_nil]

/-! ## Stretches -/

/-- All the spans are stretches of the tokens. -/
def Covers (tokens : List Token) (spans : List Span) : Prop := ∀ span ∈ spans, Stretch tokens span

namespace Covers

variable {tokens more : List Token} {span : Span} {spans others : List Span}

theorem nil : Covers tokens [] := nofun

theorem cons (stretch : Stretch tokens span) (rest : Covers tokens spans) :
    Covers tokens (span :: spans) :=
  List.forall_mem_cons.mpr ⟨stretch, rest⟩

theorem mono (covers : Covers tokens spans) (sub : tokens.Sublist more) : Covers more spans :=
  fun span member => (covers span member).mono sub

theorem append (first : Covers tokens spans) (second : Covers more others) :
    Covers (tokens ++ more) (spans ++ others) :=
  List.forall_mem_append.mpr ⟨first.mono (List.sublist_append_left tokens more),
    second.mono (List.sublist_append_right tokens more)⟩

/-- Further tokens in front or behind take nothing away. -/
theorem behind (covers : Covers tokens spans) (token : Token) : Covers (token :: tokens) spans :=
  covers.mono (List.sublist_cons_self token tokens)

theorem before (covers : Covers tokens spans) (more : List Token) : Covers (tokens ++ more) spans :=
  covers.mono (List.sublist_append_left tokens more)

theorem after (covers : Covers tokens spans) (more : List Token) : Covers (more ++ tokens) spans :=
  covers.mono (List.sublist_append_right more tokens)

/-- A phrase between two tokens. -/
theorem inside (covers : Covers tokens spans) (first last : Token) :
    Covers (first :: (tokens ++ [last])) spans :=
  (covers.before [last]).behind first

/-- A phrase between two tokens, which is known by its own span. -/
theorem around (covers : Covers tokens spans) (first last : Token) :
    Covers (first :: (tokens ++ [last])) (first.span.through last.span :: spans) :=
  .cons (.around first tokens last) (covers.inside first last)

/-- Two expressions and a token between them, together known by their own span. -/
theorem both {left right : Expression} (first : Covers tokens left.spans)
    (second : Covers more right.spans) (between : Token) :
    Covers (tokens ++ between :: more)
      (left.span.through right.span :: (left.spans ++ right.spans)) := by
  have second := second.behind between
  refine .cons ?_ (first.append second)
  exact (first _ left.span_mem_spans).through (second _ right.span_mem_spans)

/-- An expression behind a token, together known by their own span. -/
theorem prefixed {inner : Expression} (covers : Covers tokens inner.spans) (first : Token) :
    Covers (first :: tokens) (first.span.through inner.span :: inner.spans) := by
  have starts := Stretch.of_mem (List.mem_singleton_self first)
  exact .cons (starts.through (covers _ inner.span_mem_spans)) (covers.behind first)

/-- What is known by the first of its spans, together with what follows up to one of the tokens. -/
theorem upTo (covers : Covers tokens (span :: spans)) (behind : Covers more others) (last : Token)
    (member : last ∈ more) :
    Covers (tokens ++ more) (span.through last.span :: (spans ++ others)) := by
  obtain ⟨starts, rest⟩ := List.forall_mem_cons.mp covers
  exact .cons (starts.through (.of_mem member)) (append rest behind)

end Covers

/-! ## Expressions -/

mutual

theorem SpellsExpression.covers {allowance : Nat} {tokens : List Token} {result : Expression} :
    SpellsExpression allowance tokens result → Covers tokens result.spans
  | .value operators => operators.covers
  | .assign assigned assigns => by
    rw [Expression.spans]
    exact assigned.covers.both assigns.covers _

theorem SpellsOperators.covers {allowance : Nat} {levels : List Parser.OperatorLevel}
    {tokens : List Token} {result : Expression} :
    SpellsOperators allowance levels tokens result → Covers tokens result.spans
  | .operand single => single.covers
  | .tighter operators => operators.covers
  | .apply first _ second => by
    rw [Expression.spans]
    exact first.covers.both second.covers _

theorem SpellsOperand.covers {allowance : Nat} {tokens : List Token} {result : Expression} :
    SpellsOperand allowance tokens result → Covers tokens result.spans
  | .plain primary => primary.covers
  | .negate operand => by
    rw [Expression.spans]
    exact operand.covers.prefixed _
  | .not operand => by
    rw [Expression.spans]
    exact operand.covers.prefixed _

theorem SpellsPrimary.covers {allowance : Nat} {tokens : List Token} {result : Expression} :
    SpellsPrimary allowance tokens result → Covers tokens result.spans
  | .integer => by
    rw [Expression.spans]
    exact .cons (.of_mem List.mem_cons_self) .nil
  | .name => by
    rw [Expression.spans]
    exact .cons (.of_mem List.mem_cons_self) .nil
  | .call => by
    rw [Expression.spans, spansOfExpressions]
    exact (@Covers.nil [_]).around _ _
  | .callWith given => by
    rw [Expression.spans]
    exact (given.covers.behind _).around _ _
  | .group expression => expression.covers.inside _ _

theorem SpellsArguments.covers {allowance : Nat} {tokens : List Token}
    {values : List Expression} : SpellsArguments allowance tokens values →
      Covers tokens (spansOfExpressions values)
  | .last expression => by
    rw [spansOfExpressions, spansOfExpressions, List.append_nil]
    exact expression.covers
  | .more expression rest => by
    rw [spansOfExpressions]
    exact expression.covers.append (rest.covers.behind _)

end

theorem SpellsInitial.covers {allowance : Nat} {tokens : List Token} {initial : Option Expression}
    (initialized : SpellsInitial allowance tokens initial) :
    Covers tokens (spansOfInitial initial) := by
  cases initialized with
  | none => exact .nil
  | some expression => exact expression.covers.behind _

theorem SpellsCondition.covers {allowance : Nat} {tokens : List Token} {value : Expression}
    (condition : SpellsCondition allowance tokens value) : Covers tokens value.spans := by
  cases condition with
  | parentheses expression => exact expression.covers.inside _ _

/-! ## Statements -/

mutual

theorem SpellsStatement.covers {allowance : Nat} {dangling : Bool} {tokens : List Token}
    {result : Statement} :
    SpellsStatement allowance dangling tokens result → Covers tokens result.spans
  | .declare _ initialized => by
    rw [Statement.spans]
    exact (initialized.covers.behind _).around _ _
  | .evaluate expression => by
    rw [Statement.spans]
    exact expression.covers.before _
  | .choose condition branch => by
    rw [Statement.spans, spans_branchBody, spansOfStatements, List.append_nil]
    exact (condition.covers.append branch.covers).behind _
  | .chooseElse condition branch other => by
    rw [Statement.spans, spans_branchBody, spans_branchBody]
    exact (condition.covers.append (branch.covers.append (other.covers.behind _))).behind _
  | .loop condition repeated => by
    rw [Statement.spans, spans_branchBody]
    exact (condition.covers.append repeated.covers).behind _
  | .leave => by
    rw [Statement.spans, spansOfInitial]
    exact (@Covers.nil []).around _ _
  | .leaveWith expression => by
    rw [Statement.spans]
    exact expression.covers.around _ _
  | .block statements => by
    rw [Statement.spans]
    exact statements.covers.inside _ _
  | .empty => by
    rw [Statement.spans]
    exact .nil

theorem SpellsStatements.covers {allowance : Nat} {tokens : List Token}
    {result : List Statement} :
    SpellsStatements allowance tokens result → Covers tokens (spansOfStatements result)
  | .nil => by
    rw [spansOfStatements]
    exact .nil
  | .cons first rest => by
    rw [spansOfStatements]
    exact first.covers.append rest.covers

end

/-! ## Programs -/

theorem SpellsParameterList.covers {tokens : List Token} {list : List Parameter}
    (spelled : SpellsParameterList tokens list) : Covers tokens (list.map Parameter.span) := by
  induction spelled with
  | last => exact (@Covers.nil []).around ⟨_, _⟩ ⟨_, _⟩
  | more rest inductionHypothesis =>
    exact ((@Covers.nil []).around ⟨_, _⟩ ⟨_, _⟩).append (inductionHypothesis.behind _)

theorem SpellsParameters.covers {tokens : List Token} {list : List Parameter}
    (spelled : SpellsParameters tokens list) : Covers tokens (list.map Parameter.span) := by
  cases spelled with
  | none | void => exact .nil
  | list spelled => exact spelled.covers

theorem SpellsSignature.covers {returns : TypeName} {name : String} {list : List Parameter}
    {start : Span} {tokens : List Token}
    (signature : SpellsSignature returns name list start tokens) :
    Covers tokens (start :: list.map Parameter.span) := by
  obtain ⟨spelled⟩ := signature
  exact .cons (@Stretch.of_mem _ ⟨_, _⟩ List.mem_cons_self)
    (((spelled.covers.inside _ _).behind _).behind _)

theorem SpellsItem.covers {allowance : Nat} {tokens : List Token} {result : Item}
    (spelled : SpellsItem allowance tokens result) : Covers tokens result.spans := by
  cases spelled with
  | «variable» initialized => exact (initialized.covers.behind _).around ⟨_, _⟩ ⟨_, _⟩
  | prototype signature => exact signature.covers.upTo .nil ⟨_, _⟩ List.mem_cons_self
  | external signature =>
    obtain ⟨-, parameters⟩ := List.forall_mem_cons.mp signature.covers
    exact .cons (.around ⟨_, _⟩ _ ⟨_, _⟩) ((Covers.append parameters .nil).behind _)
  | definition signature statements =>
    exact signature.covers.upTo (statements.covers.inside _ _) _ List.mem_cons_self

theorem SpellsProgram.covers {allowance : Nat} {tokens : List Token} {items : List Item}
    (spelled : SpellsProgram allowance tokens items) : Covers tokens (spansOfItems items) := by
  induction spelled with
  | nil => exact .nil
  | cons first rest inductionHypothesis => exact first.covers.append inductionHypothesis

end IncrementalC.Syntax
