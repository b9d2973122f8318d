import IncrementalC.Proofs.Declaration.Index
import IncrementalC.Proofs.Lowering.Fitting

/-!
Contract: lowered code of which nothing was refused is well typed.

A name in code stands for a live declaration: a variable where it is read or written, and a
function of the right number of parameters where it is called or registered. Everything that is
computed with is an integer, and the returns of a body agree on a kind.

Owns:
- the typing of lowered expressions and statements against a table;
- that lowering yields typed code as long as it reports no error;
- the parts of code that have to be integers, and the values that it returns.

Does not own: how the table changes behind the code.
-/

namespace IncrementalC

/-! ## What a name stands for -/

namespace DeclarationTable

variable {table : DeclarationTable} {name : String}

/-- The newest record of the name is live, and of a variable. -/
def DeclaresVariable (table : DeclarationTable) (name : String) : Prop :=
  ∃ record, table.lookup name = some record ∧ record.isLive = true ∧ record.kind = .variable

/-- The newest record of the name is live, and of a function with the signature. -/
def DeclaresFunction (table : DeclarationTable) (name : String) (arity : Nat)
    (returns : ReturnKind) : Prop :=
  ∃ record definition, table.lookup name = some record ∧ record.isLive = true ∧
    record.kind = .function arity returns definition

theorem WellFormed.isLive_of_lookup (wellFormed : table.WellFormed) {record : DeclarationRecord}
    (found : table.lookup name = some record) : record.isLive = true :=
  (mem_liveNamed_iff.mp (wellFormed.mem_liveNamed_of_lookup found)).2.2

theorem WellFormed.declaresVariable (wellFormed : table.WellFormed)
    (kind : (table.lookup name).map DeclarationRecord.kind = some .variable) :
    table.DeclaresVariable name := by
  obtain ⟨record, found, isVariable⟩ := Option.map_eq_some_iff.mp kind
  exact ⟨record, found, wellFormed.isLive_of_lookup found, isVariable⟩

theorem WellFormed.declaresFunction (wellFormed : table.WellFormed) {arity : Nat}
    {returns : ReturnKind} {definition : Option TransactionId}
    (kind : (table.lookup name).map DeclarationRecord.kind =
      some (.function arity returns definition)) :
    table.DeclaresFunction name arity returns := by
  obtain ⟨record, found, isFunction⟩ := Option.map_eq_some_iff.mp kind
  exact ⟨record, definition, found, wellFormed.isLive_of_lookup found, isFunction⟩

end DeclarationTable

/-! ## Typed code -/

namespace Code

/-- The expression uses names for what they stand for, computes with integers only, and has a
value of the kind. -/
inductive HasKind (table : DeclarationTable) : Expression → ReturnKind → Prop where
  | integer (value : Int64) : HasKind table (.integer value) .int
  | slot (index : Nat) : HasKind table (.slot index) .int
  | global {name : String} (declared : table.DeclaresVariable name) :
      HasKind table (.global name) .int
  | assignSlot {value : Expression} (index : Nat) (typed : HasKind table value .int) :
      HasKind table (.assignSlot index value) .int
  | assignGlobal {name : String} {value : Expression} (declared : table.DeclaresVariable name)
      (typed : HasKind table value .int) : HasKind table (.assignGlobal name value) .int
  | call {callee : String} {arguments : List Expression} {returns : ReturnKind}
      (declared : table.DeclaresFunction callee arguments.length returns)
      (typed : ∀ argument ∈ arguments, HasKind table argument .int) :
      HasKind table (.call callee arguments) returns
  | atExit {function : String} {argument : Expression} {arity : Nat} {returns : ReturnKind}
      (declared : table.DeclaresFunction function arity returns) (few : arity ≤ 1)
      (typed : HasKind table argument .int) : HasKind table (.atExit function argument) .int
  | unary {operand : Expression} (operator : UnaryOperator) (typed : HasKind table operand .int) :
      HasKind table (.unary operator operand) .int
  | binary {left right : Expression} (operator : StrictOperator)
      (leftTyped : HasKind table left .int) (rightTyped : HasKind table right .int) :
      HasKind table (.binary operator left right) .int
  | and {left right : Expression} (leftTyped : HasKind table left .int)
      (rightTyped : HasKind table right .int) : HasKind table (.and left right) .int
  | or {left right : Expression} (leftTyped : HasKind table left .int)
      (rightTyped : HasKind table right .int) : HasKind table (.or left right) .int

/-- The statement stores and tests integers only, and what it returns is of the kind. -/
inductive WellTyped (table : DeclarationTable) (returns : ReturnKind) : Statement → Prop where
  | evaluate {value : Expression} {kind : ReturnKind} (typed : HasKind table value kind) :
      WellTyped table returns (.evaluate value)
  | store {value : Expression} (slot : Nat) (typed : HasKind table value .int) :
      WellTyped table returns (.store slot value)
  | choose {condition : Expression} {whenTrue whenFalse : List Statement}
      (typed : HasKind table condition .int)
      (whenTrueTyped : ∀ statement ∈ whenTrue, WellTyped table returns statement)
      (whenFalseTyped : ∀ statement ∈ whenFalse, WellTyped table returns statement) :
      WellTyped table returns (.choose condition whenTrue whenFalse)
  | loop {condition : Expression} {body : List Statement} (typed : HasKind table condition .int)
      (bodyTyped : ∀ statement ∈ body, WellTyped table returns statement) :
      WellTyped table returns (.loop condition body)
  | leave (nothing : returns = .void) : WellTyped table returns (.leave none)
  | leaveWith {value : Expression} (typed : HasKind table value returns) :
      WellTyped table returns (.leave (some value))

end Code

/-! ## Lowered expressions -/

namespace Analysis

open Code (HasKind WellTyped)
open Syntax (Expression Statement Parameter TypeName)

@[simp] theorem Checked.value_map {α β : Type} (change : α → β) (checked : Checked α) :
    (change <$> checked).value = change checked.value := rfl

@[simp] theorem Checked.accepted_reportIf (condition : Bool) (problem : Problem) (span : Span) :
    (Checked.reportIf condition problem span).Accepted ↔
      (condition = true → problem.code.severity ≠ .error) := by
  unfold Checked.reportIf
  cases condition <;> simp

/-- Only an integer may stand where one is needed. -/
@[simp] theorem accepted_requireInt (kind : ReturnKind) (span : Span) :
    (requireInt kind span).Accepted ↔ kind = .int := by
  cases kind <;> simp [requireInt, Problem.code, DiagnosticCode.severity]

section

variable {table : DeclarationTable} {frames : Frames}

theorem hasKind_lowerName (wellFormed : table.WellFormed) {name : String} {span : Span}
    (accepted : (lowerName table frames name span).Accepted) :
    HasKind table (lowerName table frames name span).value.2
      (lowerName table frames name span).value.1 := by
  unfold lowerName at accepted ⊢
  cases found : frames.slot? name with
  | some slot => exact .slot slot
  | none =>
    simp only [found] at accepted ⊢
    rcases kind : (table.lookup name).map DeclarationRecord.kind with
      _ | ⟨_ | ⟨arity, returns, body⟩⟩
    · simp [kind, Problem.code, DiagnosticCode.severity] at accepted
    · exact .global (wellFormed.declaresVariable kind)
    · simp [kind, Problem.code, DiagnosticCode.severity] at accepted

theorem hasKind_lowerAssignment (wellFormed : table.WellFormed) {target : Expression}
    {value : Code.Expression} (typed : HasKind table value .int)
    (accepted : (lowerAssignment table frames target value).Accepted) :
    HasKind table (lowerAssignment table frames target value).value.2
      (lowerAssignment table frames target value).value.1 := by
  cases target with
  | name name span =>
    simp only [lowerAssignment] at accepted ⊢
    cases found : frames.slot? name with
    | some slot => exact .assignSlot slot typed
    | none =>
      simp only [found] at accepted ⊢
      rcases kind : (table.lookup name).map DeclarationRecord.kind with
        _ | ⟨_ | ⟨arity, returns, body⟩⟩
      · simp [kind, Problem.code, DiagnosticCode.severity] at accepted
      · exact .assignGlobal (wellFormed.declaresVariable kind) typed
      · simp [kind, Problem.code, DiagnosticCode.severity] at accepted
  | integer value span | assign target value span | call callee arguments span
  | unary operator operand span | binary operator left right span =>
    simp [lowerAssignment, Problem.code, DiagnosticCode.severity] at accepted

/-- An accepted registration names a function that can be registered. -/
theorem atExitFunction?_declared (wellFormed : table.WellFormed) {target : Expression}
    (accepted : (atExitFunction? table target).Accepted) :
    ∃ name arity returns, (atExitFunction? table target).value = some name ∧
      table.DeclaresFunction name arity returns ∧ arity ≤ 1 := by
  cases target with
  | name name span =>
    simp only [atExitFunction?] at accepted ⊢
    rcases kind : (table.lookup name).map DeclarationRecord.kind with
      _ | ⟨_ | ⟨arity, returns, body⟩⟩
    · simp [kind, Problem.code, DiagnosticCode.severity] at accepted
    · simp [kind, Problem.code, DiagnosticCode.severity] at accepted
    · by_cases few : arity ≤ 1
      · exact ⟨name, arity, returns, by simp [few], wellFormed.declaresFunction kind, few⟩
      · simp [kind, few, Problem.code, DiagnosticCode.severity] at accepted
  | integer value span | assign target value span | call callee arguments span
  | unary operator operand span | binary operator left right span =>
    simp [atExitFunction?, Problem.code, DiagnosticCode.severity] at accepted

/-- What an accepted call calls: a declared function, or the built-in registration. -/
theorem resolveCallee_declared (wellFormed : table.WellFormed) (frames : Frames)
    (callee : String) :
    (∃ problem, resolveCallee table frames callee = .refused problem ∧
        problem.code.severity = .error) ∨
      (∃ arity returns, resolveCallee table frames callee = .function arity returns ∧
        table.DeclaresFunction callee arity returns) ∨
      resolveCallee table frames callee = .atExit := by
  unfold resolveCallee
  cases (frames.slot? callee).isSome with
  | true => exact .inl ⟨_, rfl, rfl⟩
  | false =>
    rcases kind : (table.lookup callee).map DeclarationRecord.kind with
      _ | ⟨_ | ⟨arity, returns, body⟩⟩
    · by_cases builtIn : callee = atExitName
      · exact .inr (.inr (by simp [builtIn]))
      · exact .inl ⟨.undeclared callee, by simp [builtIn], rfl⟩
    · exact .inl ⟨.notAFunction callee, by simp, rfl⟩
    · exact .inr (.inl ⟨arity, returns, by simp, wellFormed.declaresFunction kind⟩)

theorem hasKind_lowerUnary {operand : Code.Expression} (operator : UnaryOperator)
    (typed : HasKind table operand .int) : HasKind table (lowerUnary operator operand) .int := by
  unfold lowerUnary
  split
  · exact .integer _
  · exact .unary operator typed

theorem hasKind_lowerBinary {left right : Code.Expression} (operator : Syntax.BinaryOperator)
    (leftTyped : HasKind table left .int) (rightTyped : HasKind table right .int) :
    HasKind table (lowerBinary operator left right) .int := by
  cases operator with
  | or => exact .or leftTyped rightTyped
  | and => exact .and leftTyped rightTyped
  | strict operator => exact .binary operator leftTyped rightTyped

/-- Without an argument zero is passed. -/
theorem hasKind_headD {arguments : List Code.Expression}
    (typed : ∀ argument ∈ arguments, HasKind table argument .int) :
    HasKind table (arguments.headD (.integer 0)) .int := by
  cases arguments with
  | nil => exact .integer 0
  | cons head tail => exact typed head List.mem_cons_self

theorem length_lowerArguments (arguments : List Expression) :
    (lowerArguments table frames arguments).value.length = arguments.length := by
  induction arguments with
  | nil => rfl
  | cons head tail inductionHypothesis =>
    simp only [lowerArguments, Checked.value_bind, Checked.value_pure, List.length_cons,
      inductionHypothesis]

mutual

/-- An accepted expression has a value of the kind that lowering finds for it. -/
theorem hasKind_lowerExpression (wellFormed : table.WellFormed) :
    ∀ expression : Expression, (lowerExpression table frames expression).Accepted →
      HasKind table (lowerExpression table frames expression).value.2
        (lowerExpression table frames expression).value.1
  | .integer value span => fun _ => .integer value
  | .name name span => hasKind_lowerName wellFormed
  | .assign target value span => by
    intro accepted
    simp only [lowerExpression, Checked.accepted_bind, accepted_requireInt, Checked.value_bind]
      at accepted ⊢
    obtain ⟨valueAccepted, isInt, targetAccepted⟩ := accepted
    have typed := hasKind_lowerExpression wellFormed value valueAccepted
    rw [isInt] at typed
    exact hasKind_lowerAssignment wellFormed typed targetAccepted
  | .call callee [] span => by
    intro accepted
    simp only [lowerExpression] at accepted ⊢
    rcases resolveCallee_declared wellFormed frames callee with
      ⟨problem, refused, error⟩ | ⟨arity, returns, resolved, declared⟩ | builtIn
    · simp [refused, error] at accepted
    · simp only [resolved, Checked.accepted_bind, Checked.accepted_reportIf, Checked.value_bind,
        Checked.value_pure] at accepted ⊢
      have sameArity : arity = 0 := by
        simpa [Problem.code, DiagnosticCode.severity] using accepted.1
      rw [sameArity] at declared
      exact .call declared fun argument absent => absurd absent List.not_mem_nil
    · simp [builtIn, Problem.code, DiagnosticCode.severity] at accepted
  | .call callee (target :: optional) span => by
    intro accepted
    simp only [lowerExpression] at accepted ⊢
    rcases resolveCallee_declared wellFormed frames callee with
      ⟨problem, refused, error⟩ | ⟨arity, returns, resolved, declared⟩ | builtIn
    · simp [refused, error] at accepted
    · simp only [resolved, Checked.accepted_bind, Checked.accepted_reportIf, Checked.value_bind,
        Checked.value_pure] at accepted ⊢
      have sameArity : arity = (target :: optional).length := by
        simpa [Problem.code, DiagnosticCode.severity] using accepted.1
      rw [sameArity, ← length_lowerArguments] at declared
      exact .call declared (hasKind_lowerArguments wellFormed (target :: optional) accepted.2.1)
    · simp only [builtIn] at accepted ⊢
      by_cases short : optional.length ≤ 1
      · simp only [if_pos short, Checked.accepted_bind, Checked.value_bind] at accepted ⊢
        obtain ⟨function, arity, returns, named, declared, few⟩ :=
          atExitFunction?_declared wellFormed accepted.1
        simp only [named, Checked.accepted_bind, Checked.value_bind, Checked.value_pure]
          at accepted ⊢
        have typed := hasKind_lowerArguments wellFormed optional accepted.2.1
        exact .atExit declared few (hasKind_headD typed)
      · simp [if_neg short, Problem.code, DiagnosticCode.severity] at accepted
  | .unary operator operand span => by
    intro accepted
    simp only [lowerExpression, Checked.accepted_bind, accepted_requireInt, Checked.value_bind,
      Checked.value_pure] at accepted ⊢
    have typed := hasKind_lowerExpression wellFormed operand accepted.1
    rw [accepted.2.1] at typed
    exact hasKind_lowerUnary operator typed
  | .binary operator left right span => by
    intro accepted
    simp only [lowerExpression, Checked.accepted_bind, accepted_requireInt, Checked.value_bind,
      Checked.value_pure] at accepted ⊢
    obtain ⟨leftAccepted, rightAccepted, leftInt, rightInt, -⟩ := accepted
    have leftTyped := hasKind_lowerExpression wellFormed left leftAccepted
    have rightTyped := hasKind_lowerExpression wellFormed right rightAccepted
    rw [leftInt] at leftTyped
    rw [rightInt] at rightTyped
    exact hasKind_lowerBinary operator leftTyped rightTyped

/-- Accepted arguments are integers. -/
theorem hasKind_lowerArguments (wellFormed : table.WellFormed) :
    ∀ arguments : List Expression, (lowerArguments table frames arguments).Accepted →
      ∀ argument ∈ (lowerArguments table frames arguments).value, HasKind table argument .int
  | [] => fun _ _ absent => absurd absent List.not_mem_nil
  | head :: tail => by
    intro accepted
    simp only [lowerArguments, Checked.accepted_bind, accepted_requireInt, Checked.value_bind,
      Checked.value_pure] at accepted ⊢
    obtain ⟨headAccepted, isInt, tailAccepted, -⟩ := accepted
    have typed := hasKind_lowerExpression wellFormed head headAccepted
    rw [isInt] at typed
    exact List.forall_mem_cons.mpr ⟨typed, hasKind_lowerArguments wellFormed tail tailAccepted⟩

end

theorem hasKind_lowerInt (wellFormed : table.WellFormed) {expression : Expression}
    (accepted : (lowerInt table frames expression).Accepted) :
    HasKind table (lowerInt table frames expression).value .int := by
  simp only [lowerInt, Checked.accepted_bind, accepted_requireInt, Checked.value_bind,
    Checked.value_pure] at accepted ⊢
  have typed := hasKind_lowerExpression wellFormed expression accepted.1
  rw [accepted.2.1] at typed
  exact typed

end

/-! ## Lowered statements -/

section

variable {table : DeclarationTable} {scope : Scope}

/-- The kind of what a return statement gives back. -/
def returnedKind (table : DeclarationTable) (frames : Frames) : Option Expression → ReturnKind
  | none => .void
  | some value => (lowerExpression table frames value).value.1

/-- What is returned once decides what is returned from then on. -/
theorem returns_lowerReturn (value : Option Expression) (span : Span) :
    ∀ kind ∈ scope.returns, kind ∈ (lowerReturn table scope value span).value.2.returns := by
  intro kind decided
  cases value <;>
  · simp only [lowerReturn, Checked.value_bind]
    rw [Option.mem_def.mp decided]
    cases kind <;> exact decided

/-- An accepted return statement gives back what is returned from then on. -/
theorem returns_of_accepted {value : Option Expression} {span : Span}
    (accepted : (lowerReturn table scope value span).Accepted) :
    (lowerReturn table scope value span).value.2.returns =
      some (returnedKind table scope.frames value) := by
  cases value with
  | none =>
    simp only [lowerReturn, Checked.accepted_bind, Checked.value_bind, Checked.value_pure,
      returnedKind] at accepted ⊢
    rcases decided : scope.returns with _ | ⟨_ | _⟩
    · simp
    · simp [decided, Problem.code, DiagnosticCode.severity] at accepted
    · simpa using decided
  | some value =>
    simp only [lowerReturn, Checked.accepted_bind, Checked.value_bind, Checked.value_map,
      returnedKind] at accepted ⊢
    replace accepted := accepted.2
    rcases decided : scope.returns with _ | ⟨_ | _⟩
    · clear accepted
      simp only [Checked.value_pure]
      generalize (lowerExpression table scope.frames value).value = lowered
      obtain ⟨_ | _, code⟩ := lowered <;> rfl
    all_goals
      simp only [decided, Checked.accepted_bind, Checked.accepted_reportIf, decide_eq_true_eq,
        Checked.value_bind, Checked.value_pure] at accepted ⊢
      revert accepted
      generalize (lowerExpression table scope.frames value).value = lowered
      obtain ⟨_ | _, code⟩ := lowered <;> simp [Problem.code, DiagnosticCode.severity]

/-- The scope behind a statement knows what is returned at least as well. -/
def Scope.Decides (before after : Scope) : Prop := ∀ kind ∈ before.returns, kind ∈ after.returns

mutual

theorem decides_lowerStatement (table : DeclarationTable) :
    ∀ (statement : Statement) (scope : Scope),
      scope.Decides (lowerStatement table scope statement).value.2
  | .declare type name initial span, scope => by
    simp only [lowerStatement, Checked.value_bind, Checked.value_pure, Meaning.lowerLocal_value]
    exact fun _ decided => decided
  | .evaluate value, scope => fun _ decided => decided
  | .choose condition whenTrue whenFalse, scope => by
    intro kind decided
    have between := decides_lowerBlock table whenTrue scope.enter kind decided
    exact decides_lowerBlock table whenFalse _ kind between
  | .loop condition body, scope => decides_lowerBlock table body scope.enter
  | .leave value span, scope => returns_lowerReturn value span
  | .block body, scope => decides_lowerBlock table body scope.enter
  | .empty, scope => fun _ decided => decided

theorem decides_lowerBlock (table : DeclarationTable) :
    ∀ (statements : List Statement) (scope : Scope),
      scope.Decides (lowerBlock table scope statements).value.2
  | [], scope => fun _ decided => decided
  | head :: tail, scope => by
    intro kind decided
    have behind := decides_lowerStatement table head scope kind decided
    exact decides_lowerBlock table tail _ kind behind

end

/-- What a local variable is first set to is an integer. -/
theorem hasKind_loweredInitial (wellFormed : table.WellFormed) {type : TypeName} {name : String}
    {initial : Option Expression} {span : Span}
    (accepted : (lowerLocal table scope type name initial span).Accepted) :
    HasKind table (Meaning.loweredInitial table scope.frames initial) .int := by
  cases initial with
  | none => exact .integer 0
  | some initial =>
    simp only [lowerLocal, Checked.accepted_bind] at accepted
    exact hasKind_lowerInt wellFormed accepted.2.2.1

/-- An accepted return statement returns what its function does. -/
theorem wellTyped_lowerReturn (wellFormed : table.WellFormed) {value : Option Expression}
    {span : Span} {returns : ReturnKind}
    (accepted : (lowerReturn table scope value span).Accepted)
    (decides : ∀ kind ∈ (lowerReturn table scope value span).value.2.returns, kind = returns) :
    WellTyped table returns (lowerReturn table scope value span).value.1 := by
  have same := decides _ (returns_of_accepted accepted)
  rw [Meaning.lowerReturn_value]
  cases value with
  | none => exact .leave same.symm
  | some value =>
    have typed := hasKind_lowerExpression wellFormed value (Meaning.lowerReturn_accepted accepted)
    rw [show (lowerExpression table scope.frames value).value.1 = returns from same] at typed
    exact .leaveWith typed

mutual

/-- An accepted statement is typed by whatever is returned in the end. -/
theorem wellTyped_lowerStatement (wellFormed : table.WellFormed) {returns : ReturnKind} :
    ∀ (statement : Statement) (scope : Scope),
      (lowerStatement table scope statement).Accepted →
      (∀ kind ∈ (lowerStatement table scope statement).value.2.returns, kind = returns) →
      ∀ code ∈ (lowerStatement table scope statement).value.1, WellTyped table returns code
  | .declare type name initial span, scope => by
    intro accepted decides
    simp only [lowerStatement, Checked.accepted_bind, Checked.value_bind, Checked.value_pure,
      Meaning.lowerLocal_value] at accepted ⊢
    exact List.forall_mem_singleton.mpr (.store _ (hasKind_loweredInitial wellFormed accepted.1))
  | .evaluate value, scope => by
    intro accepted decides
    simp only [lowerStatement, Checked.accepted_bind, Checked.value_bind, Checked.value_pure]
      at accepted ⊢
    have typed := hasKind_lowerExpression wellFormed value accepted.2.1
    exact List.forall_mem_singleton.mpr (.evaluate typed)
  | .choose condition whenTrue whenFalse, scope => by
    intro accepted decides
    simp only [lowerStatement, Checked.accepted_bind, Checked.value_bind, Checked.value_pure]
      at accepted decides ⊢
    obtain ⟨conditionAccepted, trueAccepted, falseAccepted, -⟩ := accepted
    have falseDecides := decides_lowerBlock table whenFalse (Scope.enter
      ((lowerBlock table scope.enter whenTrue).value.2.leaveTo scope))
    have trueTyped := wellTyped_lowerBlock wellFormed whenTrue scope.enter trueAccepted
      fun kind decided => decides kind (falseDecides kind decided)
    have falseTyped := wellTyped_lowerBlock wellFormed whenFalse _ falseAccepted decides
    exact List.forall_mem_singleton.mpr
      (.choose (hasKind_lowerInt wellFormed conditionAccepted) trueTyped falseTyped)
  | .loop condition body, scope => by
    intro accepted decides
    simp only [lowerStatement, Checked.accepted_bind, Checked.value_bind, Checked.value_pure]
      at accepted decides ⊢
    have typed := wellTyped_lowerBlock wellFormed body scope.enter accepted.2.1 decides
    exact List.forall_mem_singleton.mpr (.loop (hasKind_lowerInt wellFormed accepted.1) typed)
  | .leave value span, scope => by
    intro accepted decides
    simp only [lowerStatement, Checked.accepted_bind, Checked.value_bind, Checked.value_pure]
      at accepted decides ⊢
    exact List.forall_mem_singleton.mpr (wellTyped_lowerReturn wellFormed accepted.1 decides)
  | .block body, scope => by
    intro accepted decides
    simp only [lowerStatement, Checked.accepted_bind, Checked.value_bind, Checked.value_pure]
      at accepted decides ⊢
    exact wellTyped_lowerBlock wellFormed body scope.enter accepted.1 decides
  | .empty, scope => fun _ _ code absent => absurd absent List.not_mem_nil

theorem wellTyped_lowerBlock (wellFormed : table.WellFormed) {returns : ReturnKind} :
    ∀ (statements : List Statement) (scope : Scope),
      (lowerBlock table scope statements).Accepted →
      (∀ kind ∈ (lowerBlock table scope statements).value.2.returns, kind = returns) →
      ∀ code ∈ (lowerBlock table scope statements).value.1, WellTyped table returns code
  | [], scope => fun _ _ code absent => absurd absent List.not_mem_nil
  | head :: tail, scope => by
    intro accepted decides
    simp only [lowerBlock, Checked.accepted_bind, Checked.value_bind, Checked.value_pure]
      at accepted decides ⊢
    have tailDecides := decides_lowerBlock table tail (lowerStatement table scope head).value.2
    have headTyped := wellTyped_lowerStatement wellFormed head scope accepted.1
      fun kind decided => decides kind (tailDecides kind decided)
    have tailTyped := wellTyped_lowerBlock wellFormed tail _ accepted.2.1 decides
    exact List.forall_mem_append.mpr ⟨headTyped, tailTyped⟩

end

/-- An accepted body is typed by the kind that its first return decides, which is void if it
never returns. -/
theorem wellTyped_lowerBody (wellFormed : table.WellFormed) {stated : Option ReturnKind}
    {parameters : List Parameter} {body : List Statement}
    (accepted : (lowerBody table stated parameters body).Accepted) :
    ∀ code ∈ (lowerBody table stated parameters body).value.1,
      WellTyped table ((lowerBody table stated parameters body).value.2.returns.getD .void)
        code := by
  simp only [lowerBody, Checked.accepted_bind, Checked.value_bind] at accepted ⊢
  apply wellTyped_lowerBlock wellFormed body _ accepted.2
  intro kind decided
  rw [Option.mem_def.mp decided]
  rfl

/-- What a function states it returns is decided from the start. -/
theorem returns_lowerBody (table : DeclarationTable) (stated : Option ReturnKind)
    (parameters : List Parameter) (body : List Statement) :
    ∀ kind ∈ stated, (lowerBody table stated parameters body).value.2.returns = some kind := by
  intro kind states
  have bound : ∀ scope : Scope,
      (bindParameters table scope parameters).value.returns = scope.returns := by
    induction parameters with
    | nil => exact fun _ => rfl
    | cons head tail inductionHypothesis => exact fun scope => inductionHypothesis _
  have decided := bound (.ofFunction stated)
  rw [show (Scope.ofFunction stated).returns = some kind from states] at decided
  exact decides_lowerBlock table body _ kind decided

end

end Analysis

/-! ## Integers and returned values -/

namespace Code

mutual

/-- The parts of an expression whose values it uses, at any depth. Each has to be an integer. -/
def Expression.operands : Expression → List Expression
  | .integer _ | .slot _ | .global _ => []
  | .assignSlot _ value | .assignGlobal _ value | .atExit _ value | .unary _ value =>
    value :: value.operands
  | .call _ arguments => Expression.listOperands arguments
  | .binary _ left right | .and left right | .or left right =>
    (left :: left.operands) ++ (right :: right.operands)

/-- Each expression with its operands. -/
def Expression.listOperands : List Expression → List Expression
  | [] => []
  | head :: tail => (head :: head.operands) ++ Expression.listOperands tail

end

mutual

/-- The expressions of a statement that have to be integers, at any depth. A returned value is one
of them if the function gives back an integer. -/
def Statement.operands (returnsValue : Bool) : Statement → List Expression
  | .evaluate value => value.operands
  | .store _ value => value :: value.operands
  | .choose condition whenTrue whenFalse =>
    (condition :: condition.operands) ++ Statement.listOperands returnsValue whenTrue ++
      Statement.listOperands returnsValue whenFalse
  | .loop condition body =>
    (condition :: condition.operands) ++ Statement.listOperands returnsValue body
  | .leave (some value) => if returnsValue then value :: value.operands else value.operands
  | .leave none => []

def Statement.listOperands (returnsValue : Bool) : List Statement → List Expression
  | [] => []
  | head :: tail => head.operands returnsValue ++ Statement.listOperands returnsValue tail

end

mutual

/-- What the return statements in a statement give back, at any depth. -/
def Statement.returned : Statement → List (Option Expression)
  | .evaluate _ | .store _ _ => []
  | .choose _ whenTrue whenFalse =>
    Statement.listReturned whenTrue ++ Statement.listReturned whenFalse
  | .loop _ body => Statement.listReturned body
  | .leave value => [value]

def Statement.listReturned : List Statement → List (Option Expression)
  | [] => []
  | head :: tail => head.returned ++ Statement.listReturned tail

end

section

variable {table : DeclarationTable}

/-- What holds of arguments and of the operands in each holds of all of them. -/
theorem Expression.forall_mem_listOperands {property : Expression → Prop} {list : List Expression}
    (each : ∀ expression ∈ list, property expression ∧
      ∀ operand ∈ expression.operands, property operand) :
    ∀ operand ∈ Expression.listOperands list, property operand := by
  induction list with
  | nil => exact fun _ absent => absurd absent List.not_mem_nil
  | cons head tail inductionHypothesis =>
    obtain ⟨headHolds, tailHolds⟩ := List.forall_mem_cons.mp each
    exact List.forall_mem_append.mpr
      ⟨List.forall_mem_cons.mpr headHolds, inductionHypothesis tailHolds⟩

/-- The operands of typed code are integers. -/
theorem HasKind.operands {expression : Expression} {kind : ReturnKind}
    (typed : HasKind table expression kind) :
    ∀ operand ∈ expression.operands, HasKind table operand .int := by
  induction typed with
  | integer | slot | global => exact fun _ absent => absurd absent List.not_mem_nil
  | assignSlot _ valueTyped inductionHypothesis
  | assignGlobal _ valueTyped inductionHypothesis
  | atExit _ _ valueTyped inductionHypothesis
  | unary _ valueTyped inductionHypothesis =>
    exact List.forall_mem_cons.mpr ⟨valueTyped, inductionHypothesis⟩
  | call _ typed inductionHypothesis =>
    exact Expression.forall_mem_listOperands fun argument member =>
      ⟨typed argument member, inductionHypothesis argument member⟩
  | binary _ leftTyped rightTyped leftOperands rightOperands
  | and leftTyped rightTyped leftOperands rightOperands
  | or leftTyped rightTyped leftOperands rightOperands =>
    exact List.forall_mem_append.mpr
      ⟨List.forall_mem_cons.mpr ⟨leftTyped, leftOperands⟩,
        List.forall_mem_cons.mpr ⟨rightTyped, rightOperands⟩⟩

theorem HasKind.withOperands {expression : Expression} (typed : HasKind table expression .int) :
    ∀ operand ∈ expression :: expression.operands, HasKind table operand .int :=
  List.forall_mem_cons.mpr ⟨typed, typed.operands⟩

theorem Statement.forall_mem_listOperands {property : Expression → Prop} {returnsValue : Bool}
    {list : List Statement}
    (each : ∀ statement ∈ list, ∀ operand ∈ statement.operands returnsValue, property operand) :
    ∀ operand ∈ Statement.listOperands returnsValue list, property operand := by
  induction list with
  | nil => exact fun _ absent => absurd absent List.not_mem_nil
  | cons head tail inductionHypothesis =>
    obtain ⟨headHolds, tailHolds⟩ := List.forall_mem_cons.mp each
    exact List.forall_mem_append.mpr ⟨headHolds, inductionHypothesis tailHolds⟩

theorem Statement.forall_mem_listReturned {property : Option Expression → Prop}
    {list : List Statement}
    (each : ∀ statement ∈ list, ∀ value ∈ statement.returned, property value) :
    ∀ value ∈ Statement.listReturned list, property value := by
  induction list with
  | nil => exact fun _ absent => absurd absent List.not_mem_nil
  | cons head tail inductionHypothesis =>
    obtain ⟨headHolds, tailHolds⟩ := List.forall_mem_cons.mp each
    exact List.forall_mem_append.mpr ⟨headHolds, inductionHypothesis tailHolds⟩

theorem WellTyped.operands {returns : ReturnKind} {statement : Statement}
    (typed : WellTyped table returns statement) :
    ∀ operand ∈ statement.operands (decide (returns = .int)), HasKind table operand .int := by
  induction typed with
  | evaluate typed => exact typed.operands
  | store _ typed => exact typed.withOperands
  | choose typed _ _ whenTrue whenFalse =>
    exact List.forall_mem_append.mpr ⟨List.forall_mem_append.mpr
      ⟨typed.withOperands, Statement.forall_mem_listOperands whenTrue⟩,
      Statement.forall_mem_listOperands whenFalse⟩
  | loop typed _ body =>
    exact List.forall_mem_append.mpr
      ⟨typed.withOperands, Statement.forall_mem_listOperands body⟩
  | leave => exact fun _ absent => absurd absent List.not_mem_nil
  | leaveWith typed =>
    cases returns with
    | int => exact typed.withOperands
    | void => exact typed.operands

/-- A typed statement returns nothing but values of the kind. -/
theorem WellTyped.returned {returns : ReturnKind} {statement : Statement}
    (typed : WellTyped table returns statement) :
    ∀ value ∈ statement.returned,
      (value = none ∧ returns = .void) ∨
        ∃ given, value = some given ∧ HasKind table given returns := by
  induction typed with
  | evaluate | store => exact fun _ absent => absurd absent List.not_mem_nil
  | choose _ _ _ whenTrue whenFalse =>
    exact List.forall_mem_append.mpr ⟨Statement.forall_mem_listReturned whenTrue,
      Statement.forall_mem_listReturned whenFalse⟩
  | loop _ _ body => exact Statement.forall_mem_listReturned body
  | leave nothing => exact List.forall_mem_singleton.mpr (.inl ⟨rfl, nothing⟩)
  | leaveWith typed => exact List.forall_mem_singleton.mpr (.inr ⟨_, rfl, typed⟩)

end

end Code

end IncrementalC
