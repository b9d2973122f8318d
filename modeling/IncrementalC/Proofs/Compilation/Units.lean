import IncrementalC.Compilation.Checker
import IncrementalC.Proofs.Analysis.Kinds

/-!
Contract: what the checker accepts is code that can be relied on.

Whatever was checked, committed, forgotten and collected before, the table is well formed. So an
item list that is then analysed without an error leaves a unit that stays in its frames, uses names
for what they stand for, and corresponds to its items. The kinds it was checked with are those that
are recorded in the end, with one exception: while the kind of an `auto` function is not known, the
function counts as one that returns an integer, and its own calls are not looked at again.

Owns: the states that checking can reach, and what holds of a unit that is accepted in one of them.

Does not own: when a unit is run.
-/

namespace IncrementalC

namespace Checker

/-- The states of checking: chunks are fed to any transactions, whose declarations are put in force
or forgotten, and reports and code are handed out. -/
inductive Reached : Checker → Prop where
  | new : Reached .new
  | fed {checker after : Checker} {transaction extended : Transaction} {text : String}
      {outcome : FeedOutcome} (reached : Reached checker)
      (takes : checker.feed transaction text = .ok (outcome, extended, after)) : Reached after
  | taken {checker : Checker} (reached : Reached checker) : Reached checker.takeDiagnostics.2
  | committed {checker : Checker} (id : TransactionId) (reached : Reached checker) :
      Reached (checker.commit id)
  | forgotten {checker : Checker} (id : TransactionId) (reached : Reached checker) :
      Reached (checker.forget id)
  | collected {checker : Checker} (id : TransactionId) (reached : Reached checker) :
      Reached (checker.collectUnit id).2

variable {checker : Checker}

theorem table_collectUnit (checker : Checker) (id : TransactionId) :
    (checker.collectUnit id).2.table = checker.table := by
  unfold collectUnit
  split <;> rfl

/-- A chunk changes the table by an analysis, if at all. -/
theorem table_feed {after : Checker} {transaction extended : Transaction} {text : String}
    {outcome : FeedOutcome}
    (takes : checker.feed transaction text = .ok (outcome, extended, after)) :
    after.table = checker.table ∨
      ∃ items owner, after.table = (analyze items checker.table owner).table := by
  unfold feed at takes
  split at takes
  · cases takes
  · split at takes
    · cases takes
      exact .inl rfl
    · cases takes
      exact .inl rfl
    · next items _ =>
      unfold record at takes
      split at takes
      · cases takes
      · dsimp only at takes
        split at takes <;>
        · cases takes
          exact .inr ⟨items, _, rfl⟩

/-- Checking keeps the table well formed. -/
theorem Reached.wellFormed (reached : checker.Reached) : checker.table.WellFormed := by
  induction reached with
  | new => exact DeclarationTable.wellFormed_empty
  | @fed checker after _ _ _ _ _ takes inductionHypothesis =>
    rcases table_feed takes with same | ⟨items, owner, analysed⟩
    · rw [same]
      exact inductionHypothesis
    · rw [analysed]
      exact (Analysis.analyze_extends items checker.table owner).wellFormed inductionHypothesis
  | taken _ inductionHypothesis => exact inductionHypothesis
  | committed id _ inductionHypothesis => exact inductionHypothesis.commit id
  | forgotten id _ inductionHypothesis => exact inductionHypothesis.forget id
  | collected id _ inductionHypothesis =>
    rw [table_collectUnit]
    exact inductionHypothesis

end Checker

open Syntax (Item)

/-! ## Accepted units -/

/-- The unit of an item list that is checked without an error is well formed: code stays in its
frames and uses live declarations for what they are, defined names are distinct, and globals,
functions and initializers correspond to the items in order. -/
theorem accepted_units_are_well_formed {checker : Checker} (reached : checker.Reached)
    (items : List Item) (owner : TransactionId)
    (errorless : (analyze items checker.table owner).hasErrors = false) :
    Analysis.Compiled checker.table owner items (analyze items checker.table owner).unit :=
  Analysis.compiled_analyze reached.wellFormed errorless

/-- A program with a constant, an initializer, an inner variable that hides a parameter, a call and
a registration. -/
private def frameProgram : List Item :=
  (Syntax.parseProgram ("int a = -2; int f(int n); int b = f(a) + 1; " ++
    "int f(int n) \x7b \x7b int n = b; a = n; \x7d atexit(f, n); return f(n - 1); \x7d")
  ).toOption.getD []

theorem frameProgram_is_well_formed :
    (analyze frameProgram Checker.new.table ⟨0⟩).hasErrors = false ∧
      (analyze frameProgram Checker.new.table ⟨0⟩).unit.definedNames = ["a", "b", "f"] ∧
      Analysis.Compiled Checker.new.table ⟨0⟩ frameProgram
        (analyze frameProgram Checker.new.table ⟨0⟩).unit := by
  have errorless : (analyze frameProgram Checker.new.table ⟨0⟩).hasErrors = false := by
    decide +kernel
  exact ⟨errorless, by decide +kernel, accepted_units_are_well_formed .new _ _ errorless⟩

/-! ## Kinds of values -/

/-- In a unit that is accepted, functions are recorded with the kinds that they return, and a call
stands where an integer is needed only if its function is recorded to return one. The exceptions are
exactly the calls by which an `auto` function that turns out to return nothing uses itself. -/
theorem accepted_units_agree_on_kinds {checker : Checker} (reached : checker.Reached)
    (items : List Item) (owner : TransactionId)
    (errorless : (analyze items checker.table owner).hasErrors = false) :
    Analysis.KindsAgree owner items (analyze items checker.table owner).table
      (analyze items checker.table owner).unit :=
  Analysis.kindsAgree_analyze reached.wellFormed errorless

/-- A function that takes the result of its own call for an integer and returns nothing. -/
private def deducedProgram : List Item :=
  (Syntax.parseProgram "auto f(int n) \x7b int x = f(n); \x7d").toOption.getD []

/-- The exception exists: the call is stored, and the function is recorded to return nothing. -/
theorem deducedProgram_stores_nothing :
    (analyze deducedProgram Checker.new.table ⟨0⟩).hasErrors = false ∧
      (∃ function ∈ (analyze deducedProgram Checker.new.table ⟨0⟩).unit.functions,
        function.returns = .void ∧
          ∃ operand ∈ Code.Statement.listOperands function.returnsValue function.body,
            operand.kind? (analyze deducedProgram Checker.new.table ⟨0⟩).table = some .void) ∧
      Analysis.KindsAgree ⟨0⟩ deducedProgram (analyze deducedProgram Checker.new.table ⟨0⟩).table
        (analyze deducedProgram Checker.new.table ⟨0⟩).unit := by
  have errorless : (analyze deducedProgram Checker.new.table ⟨0⟩).hasErrors = false := by
    decide +kernel
  exact ⟨errorless, by decide +kernel, accepted_units_agree_on_kinds .new _ _ errorless⟩

end IncrementalC
