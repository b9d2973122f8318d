import IncrementalC.Analysis.Program
import IncrementalC.Proofs.Syntax.Spans

/-!
Contract: where checking a program finds its problems.

Every report of checking is about one of the spans in the tree that is checked.

Owns: the places of reports, for each stage of checking up to whole programs.

Does not own: which problems there are.
-/

namespace IncrementalC

open Syntax (Expression Statement Item Parameter spansOfExpressions spansOfInitial
  spansOfStatements spansOfItems)

namespace Analysis

/-- Everything that was reported is about one of the spans. -/
def Checked.About {α : Type} (spans : List Span) (checked : Checked α) : Prop :=
  ∀ report ∈ checked.reports, report.span ∈ spans

namespace Checked.About

variable {α β : Type} {spans : List Span} {checked : Checked α} {next : α → Checked β}

theorem pure (value : α) : About spans (Pure.pure value : Checked α) := nofun

theorem bind (first : About spans checked) (second : ∀ value, About spans (next value)) :
    About spans (checked >>= next) := by
  intro report member
  rw [reports_bind] at member
  exact (List.mem_append.mp member).elim (first report) (second _ report)

theorem report {problem : Problem} {span : Span} (place : span ∈ spans) :
    About spans (Checked.report problem span) := by
  intro report member
  obtain rfl := List.mem_singleton.mp member
  exact place

theorem reportIf {condition : Bool} {problem : Problem} {span : Span} (place : span ∈ spans) :
    About spans (Checked.reportIf condition problem span) := by
  unfold Checked.reportIf
  split
  · exact .report place
  · exact .pure ()

/-- What is reported before an expression in error is replaced. -/
theorem refused {problem : Problem} {span : Span} {value : α} (place : span ∈ spans) :
    About spans (do
      Checked.report problem span
      return value) :=
  bind (.report place) fun _ => .pure value

end Checked.About

/-! ## Expressions -/

section

variable {table : DeclarationTable} {frames : Frames} {spans : List Span}

theorem lowerName_about {name : String} {span : Span} (place : span ∈ spans) :
    (lowerName table frames name span).About spans := by
  unfold lowerName
  split
  · exact .pure _
  · split
    · exact .pure _
    · exact .refused place
    · exact .refused place

theorem lowerAssignment_about {target : Expression} (place : target.span ∈ spans)
    (value : Code.Expression) : (lowerAssignment table frames target value).About spans := by
  unfold lowerAssignment
  split
  · split
    · exact .pure _
    · split
      · exact .pure _
      · exact .refused place
      · exact .refused place
  · exact .refused place

theorem atExitFunction?_about {target : Expression} (place : target.span ∈ spans) :
    (atExitFunction? table target).About spans := by
  unfold atExitFunction?
  split
  · split
    · split
      · exact .pure _
      · exact .refused place
    · exact .refused place
    · exact .refused place
  · exact .refused place

mutual

theorem lowerExpression_about {expression : Expression} (within : expression.spans ⊆ spans) :
    (lowerExpression table frames expression).About spans := by
  cases expression with
  | integer value span =>
    rw [lowerExpression]
    exact .pure _
  | name name span =>
    rw [lowerExpression]
    exact lowerName_about (within (Expression.span_mem_spans (.name name span)))
  | assign target value span =>
    rw [Expression.spans, List.cons_subset, List.append_subset] at within
    obtain ⟨place, targets, values⟩ := within
    rw [lowerExpression]
    exact .bind (lowerExpression_about values) fun lowered => .bind (.reportIf place) fun _ =>
      lowerAssignment_about (targets target.span_mem_spans) lowered.2
  | call callee arguments span =>
    rw [Expression.spans, List.cons_subset] at within
    obtain ⟨place, given⟩ := within
    rw [lowerExpression.eq_def]
    dsimp only
    split
    · exact .refused place
    · exact .bind (.reportIf place) fun _ => .bind (lowerArguments_about given) fun _ => .pure _
    · split
      · next target rest =>
        rw [spansOfExpressions, List.append_subset] at given
        obtain ⟨targets, others⟩ := given
        split
        · refine .bind (atExitFunction?_about (targets target.span_mem_spans)) fun function => ?_
          split
          · exact .pure _
          · exact .bind (lowerArguments_about others) fun _ => .pure _
        · exact .refused place
      · exact .refused place
  | unary operator operand span =>
    rw [Expression.spans, List.cons_subset] at within
    obtain ⟨place, operands⟩ := within
    rw [lowerExpression]
    exact .bind (lowerExpression_about operands) fun _ => .bind (.reportIf place) fun _ => .pure _
  | binary operator left right span =>
    rw [Expression.spans, List.cons_subset, List.append_subset] at within
    obtain ⟨place, lefts, rights⟩ := within
    rw [lowerExpression]
    exact .bind (lowerExpression_about lefts) fun _ => .bind (lowerExpression_about rights) fun _ =>
      .bind (.reportIf place) fun _ => .bind (.reportIf place) fun _ => .pure _

theorem lowerArguments_about {arguments : List Expression}
    (within : spansOfExpressions arguments ⊆ spans) :
    (lowerArguments table frames arguments).About spans := by
  cases arguments with
  | nil =>
    rw [lowerArguments]
    exact .pure _
  | cons argument rest =>
    rw [spansOfExpressions, List.append_subset] at within
    obtain ⟨first, others⟩ := within
    rw [lowerArguments]
    exact .bind (lowerExpression_about first) fun _ =>
      .bind (.reportIf (first argument.span_mem_spans)) fun _ =>
        .bind (lowerArguments_about others) fun _ => .pure _

end

theorem lowerInt_about {expression : Expression} (within : expression.spans ⊆ spans) :
    (lowerInt table frames expression).About spans :=
  .bind (lowerExpression_about within) fun _ =>
    .bind (.reportIf (within expression.span_mem_spans)) fun _ => .pure _

end

/-! ## Statements -/

section

variable {table : DeclarationTable} {scope : Scope} {spans : List Span}

theorem warnUnused_about {expression : Expression} (within : expression.spans ⊆ spans) :
    (warnUnused expression).About spans := by
  have place := within expression.span_mem_spans
  unfold warnUnused
  split
  · exact .report place
  · exact .report place
  · exact .report place
  · exact .report place
  · exact .pure _
  · exact .pure _

theorem lowerReturn_about {value : Option Expression} {span : Span} (place : span ∈ spans)
    (within : spansOfInitial value ⊆ spans) :
    (lowerReturn table scope value span).About spans := by
  cases value
  case' none => refine .bind (.pure none) fun lowered => ?_
  case' some value =>
    refine .bind (.bind (lowerExpression_about within) fun _ => .pure _) fun lowered => ?_
  -- Once the value is lowered, both ways go on alike.
  all_goals
    dsimp only
    split
    · exact .pure _
    · exact .bind (.reportIf place) fun _ => .pure _
    · exact .bind (.reportIf place) fun _ => .pure _

theorem lowerLocal_about (type : Syntax.TypeName) (name : String) {initial : Option Expression}
    {span : Span} (place : span ∈ spans) (within : spansOfInitial initial ⊆ spans) :
    (lowerLocal table scope type name initial span).About spans := by
  refine .bind (.reportIf place) fun _ => .bind (.reportIf place) fun _ => ?_
  cases initial with
  | none => exact .bind (.pure _) fun _ => .bind (.reportIf place) fun _ => .pure _
  | some initial =>
    exact .bind (lowerInt_about within) fun _ => .bind (.reportIf place) fun _ => .pure _

mutual

theorem lowerStatement_about {scope : Scope} {statement : Statement}
    (within : statement.spans ⊆ spans) :
    (lowerStatement table scope statement).About spans := by
  cases statement with
  | declare type name initial span =>
    rw [Statement.spans, List.cons_subset] at within
    rw [lowerStatement]
    exact .bind (lowerLocal_about type name within.1 within.2) fun _ => .pure _
  | evaluate value =>
    rw [Statement.spans] at within
    rw [lowerStatement]
    exact .bind (warnUnused_about within) fun _ => .bind (lowerExpression_about within) fun _ =>
      .pure _
  | choose condition whenTrue whenFalse =>
    rw [Statement.spans, List.append_subset, List.append_subset] at within
    obtain ⟨tested, first, second⟩ := within
    rw [lowerStatement]
    exact .bind (lowerInt_about tested) fun _ => .bind (lowerBlock_about first) fun _ =>
      .bind (lowerBlock_about second) fun _ => .pure _
  | loop condition body =>
    rw [Statement.spans, List.append_subset] at within
    obtain ⟨tested, repeated⟩ := within
    rw [lowerStatement]
    exact .bind (lowerInt_about tested) fun _ => .bind (lowerBlock_about repeated) fun _ => .pure _
  | leave value span =>
    rw [Statement.spans, List.cons_subset] at within
    rw [lowerStatement]
    exact .bind (lowerReturn_about within.1 within.2) fun _ => .pure _
  | block body =>
    rw [Statement.spans] at within
    rw [lowerStatement]
    exact .bind (lowerBlock_about within) fun _ => .pure _
  | empty =>
    rw [lowerStatement]
    exact .pure _

theorem lowerBlock_about {scope : Scope} {statements : List Statement}
    (within : spansOfStatements statements ⊆ spans) :
    (lowerBlock table scope statements).About spans := by
  cases statements with
  | nil =>
    rw [lowerBlock]
    exact .pure _
  | cons head tail =>
    rw [spansOfStatements, List.append_subset] at within
    rw [lowerBlock]
    exact .bind (lowerStatement_about within.1) fun _ => .bind (lowerBlock_about within.2) fun _ =>
      .pure _

end

end

/-! ## Items -/

section

variable {spans : List Span} {analysis : Analysis}

/-- Everything that an analysis reports is about one of the spans. -/
def About (spans : List Span) (analysis : Analysis) : Prop :=
  ∀ report ∈ analysis.diagnostics, report.span ∈ spans

theorem About.addReports (about : analysis.About spans) {reports : List Diagnostic}
    (more : ∀ report ∈ reports, report.span ∈ spans) : (analysis.addReports reports).About spans :=
  List.forall_mem_append.mpr ⟨about, more⟩

theorem About.report (about : analysis.About spans) (problem : Problem) {span : Span}
    (place : span ∈ spans) : (analysis.report problem span).About spans :=
  about.addReports (List.forall_mem_singleton.mpr place)

theorem About.checkVariable (about : analysis.About spans) (owner : TransactionId)
    (type : Syntax.TypeName) (name : String) {initial : Option Expression} {span : Span}
    (place : span ∈ spans) (within : spansOfInitial initial ⊆ spans) :
    (analysis.checkVariable owner type name initial span).About spans := by
  unfold Analysis.checkVariable
  split
  · exact about.report _ place
  · exact about.report _ place
  · split
    · exact about.report _ place
    · exact about.report _ place
    · refine about.addReports ?_
      cases initial with
      | none => exact Checked.About.pure none
      | some initial => exact Checked.About.bind (lowerInt_about within) fun _ => .pure _

theorem bindParameters_about {table : DeclarationTable} {scope : Scope}
    {parameters : List Parameter} (within : parameters.map Parameter.span ⊆ spans) :
    (bindParameters table scope parameters).About spans := by
  induction parameters generalizing scope with
  | nil => exact .pure _
  | cons parameter rest inductionHypothesis =>
    rw [List.map_cons, List.cons_subset] at within
    obtain ⟨place, others⟩ := within
    exact .bind (.reportIf place) fun _ => .bind (.reportIf place) fun _ =>
      .bind (.reportIf place) fun _ => inductionHypothesis others

theorem About.defineFunction (about : analysis.About spans) (declaration : DeclarationId)
    (earlier : Option EarlierFunction) (owner : TransactionId) (type : Syntax.TypeName)
    (name : String) {parameters : List Parameter} {body : List Statement} {span : Span}
    (place : span ∈ spans) (named : parameters.map Parameter.span ⊆ spans)
    (within : spansOfStatements body ⊆ spans) :
    (analysis.defineFunction declaration earlier owner type name parameters body span).About
      spans := by
  have lowered : (lowerBody analysis.table (statedReturn type) parameters body).About spans :=
    .bind (bindParameters_about named) fun _ => lowerBlock_about within
  have reported : ∀ (condition : Bool) (problem : Problem),
      (Checked.reportIf condition problem span).About spans := fun _ _ => .reportIf place
  exact about.addReports (List.forall_mem_append.mpr
    ⟨List.forall_mem_append.mpr ⟨lowered, reported _ _⟩, reported _ _⟩)

theorem About.checkFunction (about : analysis.About spans) (owner : TransactionId)
    (type : Syntax.TypeName) (name : String) {parameters : List Parameter}
    {body : Option (List Statement)} {span : Span} (place : span ∈ spans)
    (named : parameters.map Parameter.span ⊆ spans)
    (within : spansOfStatements (body.getD []) ⊆ spans) :
    (analysis.checkFunction owner type name parameters body span).About spans := by
  unfold Analysis.checkFunction
  split
  · exact about.report _ place
  · dsimp only
    split
    · exact about.report _ place
    · cases body with
      | none => exact about
      | some body =>
        have declared : ∀ kind, (analysis.declare owner name kind span).2.About spans :=
          fun _ => about
        exact (declared _).defineFunction _ _ _ _ _ place named within

theorem About.checkItem (about : analysis.About spans) (owner : TransactionId) {item : Item}
    (within : item.spans ⊆ spans) : (analysis.checkItem owner item).About spans := by
  cases item with
  | «variable» type name initial span =>
    rw [Item.spans, List.cons_subset] at within
    exact about.checkVariable owner type name within.1 within.2
  | function returns name parameters body isExternal span =>
    rw [Item.spans, List.cons_subset, List.append_subset] at within
    exact about.checkFunction owner returns name within.1 within.2.1 within.2.2

end

/-- Whatever is reported of a program is about one of its spans. -/
theorem analyze_about (items : List Item) (table : DeclarationTable) (owner : TransactionId) :
    (analyze items table owner).About (spansOfItems items) := by
  suffices ∀ (checked : List Item) (analysis : Analysis), analysis.About (spansOfItems items) →
      spansOfItems checked ⊆ spansOfItems items →
      (checked.foldl (checkItem owner) analysis).About (spansOfItems items) from
    this items _ nofun (List.Subset.refl _)
  intro checked
  induction checked with
  | nil => exact fun analysis about _ => about
  | cons item rest inductionHypothesis =>
    intro analysis about within
    have split : item.spans ⊆ spansOfItems items ∧ spansOfItems rest ⊆ spansOfItems items :=
      List.append_subset.mp within
    exact inductionHypothesis _ (about.checkItem owner split.1) split.2

end Analysis

end IncrementalC
