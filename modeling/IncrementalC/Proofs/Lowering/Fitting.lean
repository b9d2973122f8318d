import IncrementalC.Proofs.Analysis.Scope
import IncrementalC.Proofs.Lowering.Expression

/-!
Contract: what a lowered statement and its source have in common.

Owns:
- when a lowering fits a frame;
- how the ends of both runs correspond;
- the agreement of the expressions in a statement with their code.

Does not own: the runs themselves.
-/

namespace IncrementalC.Meaning

open Analysis (Frames Scope Checked lowerExpression lowerInt lowerStatement lowerBlock lowerReturn
  lowerLocal)
open Machine (Run Activation Flow)
open Syntax (Expression Statement)

/-! ## Fitting -/

/-- Nothing was refused, slots are separate, and all of them are inside the frame. -/
structure Fits {α : Type} (size : Nat) (scope : Scope) (lowered : Checked (α × Scope)) : Prop where
  accepted : lowered.Accepted
  separate : scope.frames.Separate scope.nextSlot
  grows : scope.Grows lowered.value.2
  room : lowered.value.2.nextSlot ≤ size

namespace Fits

variable {α : Type} {size : Nat} {scope : Scope} {table : DeclarationTable}

theorem before {lowered : Checked (α × Scope)} (fits : Fits size scope lowered) :
    scope.nextSlot ≤ size :=
  Nat.le_trans fits.grows.nextSlot fits.room

theorem head {statement : Statement} {rest : List Statement}
    (fits : Fits size scope (lowerBlock table scope (statement :: rest))) :
    Fits size scope (lowerStatement table scope statement) := by
  obtain ⟨accepted, separate, grows, room⟩ := fits
  simp only [lowerBlock, Checked.accepted_bind, Checked.value_bind, Checked.value_pure]
    at accepted room
  refine ⟨accepted.1, separate, Analysis.lowerStatement_grows table statement scope, ?_⟩
  exact Nat.le_trans (Analysis.lowerBlock_grows table rest _).nextSlot room

theorem tail {statement : Statement} {rest : List Statement}
    (fits : Fits size scope (lowerBlock table scope (statement :: rest))) :
    Fits size (lowerStatement table scope statement).value.2
      (lowerBlock table (lowerStatement table scope statement).value.2 rest) := by
  obtain ⟨accepted, separate, grows, room⟩ := fits
  simp only [lowerBlock, Checked.accepted_bind, Checked.value_bind, Checked.value_pure]
    at accepted room
  have headGrows := Analysis.lowerStatement_grows table statement scope
  exact ⟨accepted.2.1, headGrows.separate separate, Analysis.lowerBlock_grows table rest _, room⟩

theorem block {body : List Statement}
    (fits : Fits size scope (lowerStatement table scope (.block body))) :
    Fits size scope.enter (lowerBlock table scope.enter body) := by
  obtain ⟨accepted, separate, grows, room⟩ := fits
  simp only [lowerStatement, Checked.accepted_bind, Checked.value_bind, Checked.value_pure]
    at accepted room
  exact ⟨accepted.1, Analysis.separate_enter separate,
    Analysis.lowerBlock_grows table body scope.enter, room⟩

theorem loopBody {condition : Expression} {body : List Statement}
    (fits : Fits size scope (lowerStatement table scope (.loop condition body))) :
    Fits size scope.enter (lowerBlock table scope.enter body) := by
  obtain ⟨accepted, separate, grows, room⟩ := fits
  simp only [lowerStatement, Checked.accepted_bind, Checked.value_bind, Checked.value_pure]
    at accepted room
  exact ⟨accepted.2.1, Analysis.separate_enter separate,
    Analysis.lowerBlock_grows table body scope.enter, room⟩

theorem whenTrue {condition : Expression} {whenTrue whenFalse : List Statement}
    (fits : Fits size scope (lowerStatement table scope (.choose condition whenTrue whenFalse))) :
    Fits size scope.enter (lowerBlock table scope.enter whenTrue) := by
  obtain ⟨accepted, separate, grows, room⟩ := fits
  simp only [lowerStatement, Checked.accepted_bind, Checked.value_bind, Checked.value_pure]
    at accepted room
  refine ⟨accepted.2.1, Analysis.separate_enter separate,
    Analysis.lowerBlock_grows table whenTrue scope.enter, ?_⟩
  let between := (lowerBlock table scope.enter whenTrue).value.2.leaveTo scope
  have falseGrows := Analysis.lowerBlock_grows table whenFalse between.enter
  exact Nat.le_trans falseGrows.nextSlot room

theorem whenFalse {condition : Expression} {whenTrue whenFalse : List Statement}
    (fits : Fits size scope (lowerStatement table scope (.choose condition whenTrue whenFalse))) :
    let between := (lowerBlock table scope.enter whenTrue).value.2.leaveTo scope
    Fits size between.enter (lowerBlock table between.enter whenFalse) := by
  obtain ⟨accepted, separate, grows, room⟩ := fits
  simp only [lowerStatement, Checked.accepted_bind, Checked.value_bind, Checked.value_pure]
    at accepted room
  have trueGrows := (Analysis.lowerBlock_grows table whenTrue scope.enter).leaveTo
  exact ⟨accepted.2.2.1, Analysis.separate_enter (trueGrows.separate separate),
    Analysis.lowerBlock_grows table whenFalse _, room⟩

end Fits

/-! ## Ends -/

variable {σ : Type} {frames inner : Frames} {size : Nat}

/-- Both runs end alike. The variables matter only to statements that follow. -/
inductive EndsAlike (frames : Frames) (size : Nat) :
    Outcome σ → EStateM.Result Stop (Activation σ) Flow → Prop where
  | normal {memory : Memory σ} {activation : Activation σ}
      (holds : Holds frames size memory activation) :
      EndsAlike frames size (.ok .normal memory) (.ok .normal activation)
  | returned {memory : Memory σ} {activation : Activation σ} (value : Option Int64)
      (state : memory.state = activation.state) :
      EndsAlike frames size (.ok (.returned value) memory) (.ok (.returned value) activation)
  | stopped {memory : Memory σ} {activation : Activation σ} (stop : Stop)
      (state : memory.state = activation.state) :
      EndsAlike frames size (.error stop memory) (.error stop activation)

theorem Holds.enter {memory : Memory σ} {activation : Activation σ}
    (holds : Holds frames size memory activation) :
    Holds ([] :: frames) size memory.enter activation :=
  ⟨.cons .nil holds.represents, holds.size, holds.state⟩

theorem Holds.leave {memory : Memory σ} {activation : Activation σ}
    (holds : Holds inner size memory activation) :
    Holds inner.tail size memory.leave activation := by
  obtain ⟨scopes, shared⟩ := memory
  obtain ⟨represents, sameSize, state⟩ := holds
  refine ⟨?_, sameSize, state⟩
  simp only [Memory.leave] at represents ⊢
  cases represents with
  | nil => exact .nil
  | cons _ outer => exact outer

theorem breaks_returned (value : Option Int64) (memory : Memory σ) :
    Outcome.Breaks (.ok (.returned value) memory) := fun _ same => by cases same

theorem breaks_error (stop : Stop) (memory : Memory σ) :
    Outcome.Breaks (.error stop memory) := fun _ same => by cases same

theorem Outcome.Breaks.leave {outcome : Outcome σ} (breaks : outcome.Breaks) :
    outcome.leave.Breaks := by
  intro memory
  cases outcome with
  | error stop inner =>
    intro same
    cases same
  | ok flow inner =>
    intro same
    simp only [Outcome.leave] at same
    cases same
    exact breaks inner rfl

theorem Ended.of_leave {outcome : Outcome σ} (ended : Ended outcome.leave) : Ended outcome := by
  cases outcome with
  | ok flow memory => exact ended_ok _ _
  | error stop memory =>
    rw [ended_error_iff]
    exact (ended_error_iff stop memory.leave).mp ended

namespace EndsAlike

variable {outcome : Outcome σ} {result : EStateM.Result Stop (Activation σ) Flow}

theorem leave (alike : EndsAlike inner size outcome result) :
    EndsAlike inner.tail size outcome.leave result := by
  cases alike with
  | normal holds => exact .normal holds.leave
  | returned value state => exact .returned value state
  | stopped stop state => exact .stopped stop state

theorem of_breaks (alike : EndsAlike inner size outcome result) (breaks : outcome.Breaks) :
    EndsAlike frames size outcome result := by
  cases alike with
  | normal _ => exact absurd rfl (breaks _)
  | returned value state => exact .returned value state
  | stopped stop state => exact .stopped stop state

theorem result_breaks (alike : EndsAlike inner size outcome result) (breaks : outcome.Breaks) :
    ∀ after, result ≠ .ok .normal after := by
  cases alike with
  | normal _ => exact absurd rfl (breaks _)
  | returned value state => exact fun _ same => by cases same
  | stopped stop state => exact fun _ same => by cases same

theorem breaks (alike : EndsAlike inner size outcome result)
    (broke : ∀ after, result ≠ .ok .normal after) : outcome.Breaks := by
  cases alike with
  | normal _ => exact absurd rfl (broke _)
  | returned value state => exact fun _ same => by cases same
  | stopped stop state => exact fun _ same => by cases same

end EndsAlike

/-! ## Simple statements -/

section

variable {environment : Environment σ} {table : DeclarationTable} {scope : Scope}
  {memory : Memory σ} {activation : Activation σ}

/-- A new variable takes the next slot. -/
theorem store_bind (separate : scope.frames.Separate scope.nextSlot)
    (room : scope.nextSlot < size) (name : String) (value : Int64)
    (holds : Holds scope.frames size memory activation) :
    ∃ final,
      (do
        Machine.writeSlot scope.nextSlot value
        return Flow.normal : Run (Activation σ) Flow) activation = .ok .normal final ∧
        Holds (scope.bind name).2.frames size (memory.bind name value) final := by
  obtain ⟨scopes, state⟩ := memory
  obtain ⟨frame, shared⟩ := activation
  obtain ⟨represents, sameSize, sameState⟩ := holds
  simp only at represents sameSize sameState
  have inside : scope.nextSlot < frame.size := by omega
  have unused : scope.nextSlot ∉ scope.frames.slots := by
    intro member
    exact Nat.lt_irrefl _ (separate.below _ member)
  refine ⟨⟨frame.setIfInBounds scope.nextSlot value, shared⟩, ?_, ?_, ?_, sameState⟩
  · show EStateM.bind _ _ _ = _
    simp only [EStateM.bind, Machine.writeSlot, if_pos inside]
    rfl
  · have kept := represents_set_of_notMem represents unused value
    simp only [Scope.bind, Memory.bind]
    revert kept
    generalize scope.frames = frames
    intro kept
    cases kept with
    | nil => exact .nil
    | cons here outer =>
      refine .cons (.cons ⟨rfl, ?_⟩ here) outer
      exact Array.getElem?_setIfInBounds_self_of_lt inside
  · rw [Array.size_setIfInBounds]
    exact sameSize

/-- What a local variable is first set to. -/
def loweredInitial (table : DeclarationTable) (frames : Frames) : Option Expression → Code.Expression
  | none => .integer 0
  | some initial => (lowerInt table frames initial).value

theorem lowerLocal_value (table : DeclarationTable) (scope : Scope) (type : Syntax.TypeName)
    (name : String) (initial : Option Expression) (span : Span) :
    (lowerLocal table scope type name initial span).value =
      (.store scope.nextSlot (loweredInitial table scope.frames initial), (scope.bind name).2) := by
  cases initial <;> rfl

theorem test_simulates
    (known : ∀ name, environment.declares name = (table.lookup name).isSome)
    (separate : scope.frames.Separate scope.nextSlot) (room : scope.nextSlot ≤ size)
    {condition : Expression} (accepted : (lowerInt table scope.frames condition).Accepted) :
    Simulates scope.frames size (evaluate environment condition)
      (valueOf environment (lowerInt table scope.frames condition).value) := by
  simp only [lowerInt, Checked.accepted_bind] at accepted
  simp only [lowerInt, Checked.value_bind, Checked.value_pure]
  exact evaluate_simulates known separate room condition accepted.1

theorem initial_simulates
    (known : ∀ name, environment.declares name = (table.lookup name).isSome)
    (separate : scope.frames.Separate scope.nextSlot) (room : scope.nextSlot ≤ size)
    {type : Syntax.TypeName} {name : String} {initial : Option Expression} {span : Span}
    (accepted : (lowerLocal table scope type name initial span).Accepted) :
    Simulates scope.frames size (initialValue environment initial)
      (valueOf environment (loweredInitial table scope.frames initial)) := by
  cases initial with
  | none => exact Simulates.pure 0
  | some initial =>
    simp only [lowerLocal, Checked.accepted_bind] at accepted
    obtain ⟨-, -, initialAccepted, -⟩ := accepted
    exact test_simulates known separate room initialAccepted

theorem lowerReturn_value (table : DeclarationTable) (scope : Scope) (value : Option Expression)
    (span : Span) :
    (lowerReturn table scope value span).value.1 =
      .leave (value.map fun value => (lowerExpression table scope.frames value).value.2) := by
  cases value with
  | none =>
    simp only [lowerReturn, Checked.value_bind, Checked.value_pure]
    split <;> rfl
  | some value =>
    simp only [lowerReturn, Checked.value_bind]
    split <;> rfl

theorem lowerReturn_accepted {table : DeclarationTable} {scope : Scope} {value : Expression}
    {span : Span} (accepted : (lowerReturn table scope (some value) span).Accepted) :
    (lowerExpression table scope.frames value).Accepted := by
  simp only [lowerReturn, Checked.accepted_bind, Checked.accepted_map] at accepted
  exact accepted.1

theorem Fits.initial_simulates
    (known : ∀ name, environment.declares name = (table.lookup name).isSome)
    {type : Syntax.TypeName} {name : String} {initial : Option Expression} {span : Span}
    (fits : Fits size scope (lowerStatement table scope (.declare type name initial span))) :
    Simulates scope.frames size (initialValue environment initial)
      (valueOf environment (loweredInitial table scope.frames initial)) := by
  have accepted := fits.accepted
  simp only [lowerStatement, Checked.accepted_bind] at accepted
  exact Meaning.initial_simulates known fits.separate fits.before accepted.1

theorem Fits.value_simulates
    (known : ∀ name, environment.declares name = (table.lookup name).isSome)
    {value : Expression} (fits : Fits size scope (lowerStatement table scope (.evaluate value))) :
    Simulates scope.frames size (evaluate environment value)
      (valueOf environment (lowerExpression table scope.frames value).value.2) := by
  have accepted := fits.accepted
  simp only [lowerStatement, Checked.accepted_bind] at accepted
  exact evaluate_simulates known fits.separate fits.before value accepted.2.1

theorem Fits.choice_simulates
    (known : ∀ name, environment.declares name = (table.lookup name).isSome)
    {condition : Expression} {whenTrue whenFalse : List Statement}
    (fits : Fits size scope (lowerStatement table scope (.choose condition whenTrue whenFalse))) :
    Simulates scope.frames size (evaluate environment condition)
      (valueOf environment (lowerInt table scope.frames condition).value) := by
  have accepted := fits.accepted
  simp only [lowerStatement, Checked.accepted_bind] at accepted
  exact test_simulates known fits.separate fits.before accepted.1

theorem Fits.condition_simulates
    (known : ∀ name, environment.declares name = (table.lookup name).isSome)
    {condition : Expression} {body : List Statement}
    (fits : Fits size scope (lowerStatement table scope (.loop condition body))) :
    Simulates scope.frames size (evaluate environment condition)
      (valueOf environment (lowerInt table scope.frames condition).value) := by
  have accepted := fits.accepted
  simp only [lowerStatement, Checked.accepted_bind] at accepted
  exact test_simulates known fits.separate fits.before accepted.1

theorem Fits.result_simulates
    (known : ∀ name, environment.declares name = (table.lookup name).isSome)
    {value : Expression} {span : Span}
    (fits : Fits size scope (lowerStatement table scope (.leave (some value) span))) :
    Simulates scope.frames size (evaluate environment value)
      (valueOf environment (lowerExpression table scope.frames value).value.2) := by
  have accepted := fits.accepted
  simp only [lowerStatement, Checked.accepted_bind] at accepted
  exact evaluate_simulates known fits.separate fits.before value (lowerReturn_accepted accepted.1)

end

end IncrementalC.Meaning
