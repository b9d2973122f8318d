import IncrementalC.Analysis.Lowering
import IncrementalC.Proofs.Lowering.CodeRuns
import IncrementalC.Proofs.Lowering.Storage

/-!
Contract: lowered expressions have the value of their source.

Owns: what it means that nothing was refused, the agreement of the operators, and the
simulation of expressions and of lists of arguments.

Does not own: statements.
-/

namespace IncrementalC

namespace Analysis

/-! ## Acceptance -/

/-- No error was reported. -/
def Checked.Accepted {α : Type} (checked : Checked α) : Prop :=
  ∀ report ∈ checked.reports, report.isError = false

namespace Checked

variable {α β : Type}

@[simp] theorem accepted_pure (value : α) : (pure value : Checked α).Accepted :=
  fun _ member => absurd member List.not_mem_nil

@[simp] theorem accepted_bind (checked : Checked α) (next : α → Checked β) :
    (checked >>= next).Accepted ↔ checked.Accepted ∧ (next checked.value).Accepted := by
  simp only [Accepted, reports_bind, List.mem_append, or_imp, forall_and]

@[simp] theorem accepted_report (problem : Problem) (span : Span) :
    (report problem span).Accepted ↔ problem.code.severity ≠ .error := by
  have isError : (problem.reportAt span).isError = decide (problem.code.severity = .error) := rfl
  simp only [Accepted, report, List.mem_singleton, forall_eq]
  rw [isError, decide_eq_false_iff_not]

@[simp] theorem accepted_map (change : α → β) (checked : Checked α) :
    (change <$> checked).Accepted ↔ checked.Accepted := by
  show (checked >>= fun value => pure (change value)).Accepted ↔ _
  simp

end Checked

end Analysis

namespace Meaning

open Analysis (Frames Checked Problem lowerExpression lowerArguments)
open Machine (Run State Activation)
open Syntax (Expression)

/-! ## Operators -/

theorem flag_eq (condition : Bool) : flag condition = Machine.truth condition := rfl

theorem unary_eq (operator : UnaryOperator) (operand : Int64) :
    unary operator operand.toInt = Machine.applyUnary operator operand := by
  cases operator with
  | negate => simp [unary, Machine.applyUnary]
  | not =>
    have zero : operand.toInt = 0 ↔ operand = 0 := by
      rw [← Int64.toInt_zero, Int64.toInt_inj]
    simp [unary, Machine.applyUnary, flag_eq, zero]

theorem toInt_eq_zero {value : Int64} : value.toInt = 0 ↔ value = 0 := by
  rw [← Int64.toInt_zero, Int64.toInt_inj]

theorem strict_eq (operator : StrictOperator) (left right : Int64) :
    strict operator left.toInt right.toInt = Machine.applyStrict operator left right := by
  cases operator with
  | add => simp [strict, Machine.applyStrict]
  | subtract => simp [strict, Machine.applyStrict]
  | multiply => simp [strict, Machine.applyStrict]
  | divide =>
    simp only [strict, Machine.applyStrict, toInt_eq_zero]
    rw [Int64.ofInt_tdiv left.minValue_le_toInt left.toInt_le right.minValue_le_toInt
      right.toInt_le]
    simp
  | remainder =>
    simp only [strict, Machine.applyStrict, toInt_eq_zero]
    rw [Int64.ofInt_tmod left.minValue_le_toInt left.toInt_le right.minValue_le_toInt
      right.toInt_le]
    simp
  | equal => simp [strict, Machine.applyStrict, flag_eq, Int64.toInt_inj]
  | notEqual => simp [strict, Machine.applyStrict, flag_eq, Int64.toInt_inj]
  | less => simp [strict, Machine.applyStrict, flag_eq, Int64.lt_iff_toInt_lt]
  | lessEqual => simp [strict, Machine.applyStrict, flag_eq, Int64.le_iff_toInt_le]
  | greater => simp [strict, Machine.applyStrict, flag_eq, Int64.lt_iff_toInt_lt]
  | greaterEqual => simp [strict, Machine.applyStrict, flag_eq, Int64.le_iff_toInt_le]

/-- Folding a negated constant does not change the value. -/
theorem evaluate_lowerUnary {σ : Type} (linkage : Machine.Linkage σ) (operator : UnaryOperator)
    (operand : Code.Expression) :
    Machine.evaluate linkage (Analysis.lowerUnary operator operand) =
      Machine.evaluate linkage (.unary operator operand) := by
  cases operator with
  | not => rfl
  | negate =>
    cases operand with
    | integer value =>
      simp only [Analysis.lowerUnary, Machine.evaluate, pure_bind]
      rfl
    | _ => rfl

/-! ## Simulation -/

section

variable {σ : Type} {table : DeclarationTable} {frames : Frames} {bound size : Nat}
  {environment : Environment σ} {rounds : Nat}

theorem name_simulates (separate : frames.Separate bound) (room : bound ≤ size) {name : String}
    {span : Span} (accepted : (Analysis.lowerName table frames name span).Accepted) :
    Simulates frames size (readVariable name)
      (Machine.evaluate (environment.linkage rounds)
        (Analysis.lowerName table frames name span).value.2) := by
  unfold Analysis.lowerName at accepted ⊢
  cases found : frames.slot? name with
  | some slot =>
    have inside := separate.below slot (Analysis.mem_slots_of_slot? found)
    exact readVariable_local found (Nat.lt_of_lt_of_le inside room)
  | none =>
    simp only [found] at accepted ⊢
    generalize (table.lookup name).map DeclarationRecord.kind = kind at accepted ⊢
    rcases kind with _ | ⟨_ | ⟨arity, returns, body⟩⟩
    · simp [Problem.code, DiagnosticCode.severity] at accepted
    · exact readVariable_global found
    · simp [Problem.code, DiagnosticCode.severity] at accepted

theorem assignment_simulates (separate : frames.Separate bound) (room : bound ≤ size)
    {name : String} {span : Span} {value : Code.Expression}
    (accepted :
      (Analysis.lowerAssignment table frames (.name name span) value).Accepted)
    {reference : Run (Memory σ) Int64}
    (computed : Simulates frames size reference
      (Machine.evaluate (environment.linkage rounds) value)) :
    Simulates frames size
      (do
        let result ← reference
        writeVariable name result
        return result)
      (Machine.evaluate (environment.linkage rounds)
        (Analysis.lowerAssignment table frames (.name name span) value).value.2) := by
  unfold Analysis.lowerAssignment at accepted ⊢
  cases found : frames.slot? name with
  | some slot =>
    have inside := separate.below slot (Analysis.mem_slots_of_slot? found)
    simp only [found, Checked.value_pure, Machine.evaluate]
    refine computed.bind fun result => ?_
    refine (writeVariable_local separate found (Nat.lt_of_lt_of_le inside room) result).bind
      fun _ => ?_
    exact Simulates.pure result
  | none =>
    simp only [found] at accepted ⊢
    generalize (table.lookup name).map DeclarationRecord.kind = kind at accepted ⊢
    rcases kind with _ | ⟨_ | ⟨arity, returns, body⟩⟩
    · simp [Problem.code, DiagnosticCode.severity] at accepted
    · simp only [Checked.value_pure, Machine.evaluate]
      refine computed.bind fun result => ?_
      refine (writeVariable_global found result).bind fun _ => ?_
      exact Simulates.pure result
    · simp [Problem.code, DiagnosticCode.severity] at accepted

/-- An accepted registration names a function of the program. -/
theorem atExitFunction?_accepted {target : Expression}
    (accepted : (Analysis.atExitFunction? table target).Accepted) :
    ∃ name span, target = .name name span ∧
      (Analysis.atExitFunction? table target).value = some name := by
  cases target with
  | name name span =>
    refine ⟨name, span, rfl, ?_⟩
    simp only [Analysis.atExitFunction?] at accepted ⊢
    generalize (table.lookup name).map DeclarationRecord.kind = kind at accepted ⊢
    rcases kind with _ | ⟨_ | ⟨arity, returns, body⟩⟩
    · simp [Problem.code, DiagnosticCode.severity] at accepted
    · simp [Problem.code, DiagnosticCode.severity] at accepted
    · by_cases small : arity ≤ 1
      · simp [small]
      · simp [small, Problem.code, DiagnosticCode.severity] at accepted
  | integer value span | assign target value span | call callee arguments span
  | unary operator operand span | binary operator left right span =>
    simp [Analysis.atExitFunction?, Problem.code, DiagnosticCode.severity] at accepted

/-- What an accepted call calls: a function that is declared, or the built-in
registration, which nothing declares. -/
theorem resolveCallee_cases
    (known : ∀ name, environment.declares name = (table.lookup name).isSome) (frames : Frames)
    (callee : String) :
    (∃ problem, Analysis.resolveCallee table frames callee = .refused problem ∧
        problem.code.severity = .error) ∨
      (∃ arity returns, Analysis.resolveCallee table frames callee = .function arity returns ∧
        environment.declares callee = true) ∨
      (Analysis.resolveCallee table frames callee = .atExit ∧ callee = "atexit" ∧
        environment.declares callee = false) := by
  rw [known]
  unfold Analysis.resolveCallee
  cases (frames.slot? callee).isSome with
  | true => exact .inl ⟨_, rfl, rfl⟩
  | false =>
    cases table.lookup callee with
    | none =>
      by_cases builtIn : callee = Analysis.atExitName
      · exact .inr (.inr ⟨by simp [builtIn], builtIn, rfl⟩)
      · exact .inl ⟨.undeclared callee, by simp [builtIn], rfl⟩
    | some record =>
      rcases kind : record.kind with _ | ⟨arity, returns, body⟩
      · exact .inl ⟨.notAFunction callee, by simp [kind], rfl⟩
      · exact .inr (.inl ⟨arity, returns, by simp [kind], rfl⟩)

theorem call_simulates {callee : String} (declared : environment.declares callee = true)
    {arguments : List Expression} {span : Span} {lowered : List Code.Expression}
    (computed : Simulates frames size (evaluateAll environment arguments)
      (Machine.evaluateAll (environment.linkage rounds) lowered)) :
    Simulates frames size (evaluate environment (.call callee arguments span))
      (Machine.evaluate (environment.linkage rounds) (.call callee lowered)) := by
  have ordinary : ¬(callee = "atexit" ∧ environment.declares callee = false) := by
    rw [declared]
    simp
  have reference : evaluate environment (.call callee arguments span) = (do
      let values ← evaluateAll environment arguments
      outsideScopes (environment.call callee values)) := by
    cases arguments with
    | nil => simp only [evaluate, if_neg ordinary]
    | cons head tail => cases head <;> simp only [evaluate, if_neg ordinary]
  rw [reference, Machine.evaluate]
  exact computed.bind fun values => Simulates.outside _

/-- Registering evaluates at most one argument, and zero stands for a missing one. -/
theorem atExit_simulates {function : String} {functionSpan span : Span}
    (undeclared : environment.declares "atexit" = false) {optional : List Expression}
    (short : optional.length ≤ 1)
    (computed : Simulates frames size (evaluateAll environment optional)
      (Machine.evaluateAll (environment.linkage rounds)
        (lowerArguments table frames optional).value)) :
    Simulates frames size
      (evaluate environment (.call "atexit" (.name function functionSpan :: optional) span))
      (Machine.evaluate (environment.linkage rounds)
        (.atExit function
          ((lowerArguments table frames optional).value.headD (.integer 0)))) := by
  simp only [evaluate, undeclared, and_self, if_true, Machine.evaluate]
  cases optional with
  | nil =>
    simp only [evaluateAll, lowerArguments, Checked.value_pure, List.headD_nil, pure_bind,
      Machine.evaluate]
    exact (Simulates.outside _).bind fun _ => Simulates.pure 0
  | cons argument more =>
    cases more with
    | cons second rest => simp at short
    | nil =>
      have registered := computed.bind fun values =>
        (Simulates.outside (environment.registerAtExit function (values.headD 0))).bind fun _ =>
          Simulates.pure (0 : Int64)
      simp only [evaluateAll, lowerArguments, Checked.value_bind, Checked.value_pure,
        Machine.evaluateAll, List.headD_cons, bind_assoc, pure_bind] at registered ⊢
      exact registered

mutual

/-- An accepted expression has the same value on the tree and in code. -/
theorem evaluate_simulates
    (known : ∀ name, environment.declares name = (table.lookup name).isSome)
    (separate : frames.Separate bound) (room : bound ≤ size) :
    ∀ expression, (lowerExpression table frames expression).Accepted →
      Simulates frames size (evaluate environment expression)
        (Machine.evaluate (environment.linkage rounds)
          (lowerExpression table frames expression).value.2)
  | .integer value span => by
    intro _
    simp only [evaluate, lowerExpression, Checked.value_pure, Machine.evaluate]
    exact Simulates.pure value
  | .name name span => by
    intro accepted
    simp only [lowerExpression] at accepted ⊢
    simp only [evaluate]
    exact name_simulates separate room accepted
  | .assign (.name name nameSpan) value span => by
    intro accepted
    simp only [lowerExpression, Checked.accepted_bind] at accepted
    obtain ⟨valueAccepted, -, targetAccepted⟩ := accepted
    simp only [evaluate, lowerExpression, Checked.value_bind]
    exact assignment_simulates separate room targetAccepted
      (evaluate_simulates known separate room value valueAccepted)
  | .assign (.integer _ _) value span | .assign (.assign _ _ _) value span
  | .assign (.call _ _ _) value span | .assign (.unary _ _ _) value span
  | .assign (.binary _ _ _ _) value span => by
    intro accepted
    simp [lowerExpression, Analysis.lowerAssignment, Problem.code, DiagnosticCode.severity]
      at accepted
  | .call callee [] span => by
    intro accepted
    simp only [lowerExpression] at accepted ⊢
    rcases resolveCallee_cases known frames callee with
      ⟨problem, refused, error⟩ | ⟨arity, returns, resolved, declared⟩ | ⟨builtIn, rfl, undeclared⟩
    · simp [refused, error] at accepted
    · simp only [resolved, Checked.value_bind, Checked.value_pure]
      exact call_simulates declared
        (evaluateAll_simulates known separate room [] (by simp [lowerArguments]))
    · simp [builtIn, Problem.code, DiagnosticCode.severity] at accepted
  | .call callee (target :: optional) span => by
    intro accepted
    simp only [lowerExpression] at accepted ⊢
    rcases resolveCallee_cases known frames callee with
      ⟨problem, refused, error⟩ | ⟨arity, returns, resolved, declared⟩ | ⟨builtIn, rfl, undeclared⟩
    · simp [refused, error] at accepted
    · simp only [resolved, Checked.accepted_bind, Checked.value_bind, Checked.value_pure]
        at accepted ⊢
      exact call_simulates declared
        (evaluateAll_simulates known separate room (target :: optional) accepted.2.1)
    · simp only [builtIn] at accepted ⊢
      by_cases short : optional.length ≤ 1
      · simp only [if_pos short, Checked.accepted_bind, Checked.value_bind] at accepted ⊢
        obtain ⟨function, functionSpan, rfl, named⟩ := atExitFunction?_accepted accepted.1
        simp only [named, Checked.accepted_bind, Checked.value_bind, Checked.value_pure]
          at accepted ⊢
        exact atExit_simulates undeclared short
          (evaluateAll_simulates known separate room optional accepted.2.1)
      · simp [if_neg short, Problem.code, DiagnosticCode.severity] at accepted
  | .unary operator operand span => by
    intro accepted
    simp only [lowerExpression, Checked.accepted_bind] at accepted
    simp only [evaluate, lowerExpression, Checked.value_bind, Checked.value_pure,
      evaluate_lowerUnary, Machine.evaluate]
    refine (evaluate_simulates known separate room operand accepted.1).bind fun value => ?_
    rw [unary_eq]
    exact Simulates.pure _
  | .binary .and left right span => by
    intro accepted
    simp only [lowerExpression, Checked.accepted_bind] at accepted
    obtain ⟨leftAccepted, rightAccepted, -⟩ := accepted
    simp only [evaluate, lowerExpression, Checked.value_bind, Checked.value_pure,
      Analysis.lowerBinary, Machine.evaluate]
    refine (evaluate_simulates known separate room left leftAccepted).bind fun leftValue => ?_
    by_cases zero : leftValue = 0
    · simp only [if_pos zero]
      exact Simulates.pure 0
    · simp only [if_neg zero]
      refine (evaluate_simulates known separate room right rightAccepted).bind fun rightValue => ?_
      exact Simulates.pure _
  | .binary .or left right span => by
    intro accepted
    simp only [lowerExpression, Checked.accepted_bind] at accepted
    obtain ⟨leftAccepted, rightAccepted, -⟩ := accepted
    simp only [evaluate, lowerExpression, Checked.value_bind, Checked.value_pure,
      Analysis.lowerBinary, Machine.evaluate]
    refine (evaluate_simulates known separate room left leftAccepted).bind fun leftValue => ?_
    by_cases zero : leftValue = 0
    · simp only [if_pos zero]
      refine (evaluate_simulates known separate room right rightAccepted).bind fun rightValue => ?_
      exact Simulates.pure _
    · simp only [if_neg zero]
      exact Simulates.pure 1
  | .binary (.strict operator) left right span => by
    intro accepted
    simp only [lowerExpression, Checked.accepted_bind] at accepted
    obtain ⟨leftAccepted, rightAccepted, -⟩ := accepted
    simp only [evaluate, lowerExpression, Checked.value_bind, Checked.value_pure,
      Analysis.lowerBinary, Machine.evaluate]
    refine (evaluate_simulates known separate room left leftAccepted).bind fun leftValue => ?_
    refine (evaluate_simulates known separate room right rightAccepted).bind fun rightValue => ?_
    rw [strict_eq]
    cases Machine.applyStrict operator leftValue rightValue with
    | ok result => exact Simulates.pure result
    | error fault => exact Simulates.fault fault

theorem evaluateAll_simulates
    (known : ∀ name, environment.declares name = (table.lookup name).isSome)
    (separate : frames.Separate bound) (room : bound ≤ size) :
    ∀ arguments, (lowerArguments table frames arguments).Accepted →
      Simulates frames size (evaluateAll environment arguments)
        (Machine.evaluateAll (environment.linkage rounds)
          (lowerArguments table frames arguments).value)
  | [] => by
    intro _
    simp only [evaluateAll, lowerArguments, Checked.value_pure, Machine.evaluateAll]
    exact Simulates.pure []
  | head :: tail => by
    intro accepted
    simp only [lowerArguments, Checked.accepted_bind] at accepted
    obtain ⟨headAccepted, -, tailAccepted, -⟩ := accepted
    simp only [evaluateAll, lowerArguments, Checked.value_bind, Checked.value_pure,
      Machine.evaluateAll]
    refine (evaluate_simulates known separate room head headAccepted).bind fun value => ?_
    refine (evaluateAll_simulates known separate room tail tailAccepted).bind fun values => ?_
    exact Simulates.pure _

end

end

end Meaning

end IncrementalC
