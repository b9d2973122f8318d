import IncrementalC.Proofs.Analysis.Extension
import IncrementalC.Proofs.Lowering.CodeToSource
import IncrementalC.Proofs.Lowering.SourceToCode
import IncrementalC.Proofs.Machine.Storage

/-!
Contract: what a lowered function means.

Owns:
- the frame of a call as the block of the parameters;
- the agreement of a function that an analysis accepts with its source.

Does not own: linking, or the values that functions hand back.
-/

namespace IncrementalC.Meaning

open Analysis (Frames Scope Checked Problem lowerBlock lowerBody bindParameters)
open Machine (Run State Activation Flow)
open Syntax (Expression Statement Parameter Item TypeName)

/-! ## Parameters -/

section

variable {table : DeclarationTable}

/-- Parameters take consecutive slots, in which a call puts their arguments. -/
theorem represents_bindParameters (parameters : List Parameter) (arguments : List Int64)
    {scope : Scope} {frame : List (String × Nat)} (single : scope.frames = [frame])
    {block : List (String × Int64)} {array : Array Int64}
    (stored : List.Forall₂ (Stored array) frame block)
    (given : ∀ position < parameters.length,
      array[scope.nextSlot + position]? = some (arguments.getD position 0)) :
    Represents (bindParameters table scope parameters).value.frames
      [bindArguments parameters arguments block] array := by
  induction parameters generalizing arguments scope frame block with
  | nil =>
    simp only [bindParameters, Checked.value_pure, bindArguments, single]
    exact .cons stored .nil
  | cons head tail inductionHypothesis =>
    have first := given 0 (by simp)
    rw [Nat.add_zero] at first
    have bound : (scope.bind head.name).2.frames = [(head.name, scope.nextSlot) :: frame] := by
      simp only [Scope.bind, single]
    simp only [bindParameters, Checked.value_bind, bindArguments]
    refine inductionHypothesis arguments.tail bound (.cons ⟨rfl, ?_⟩ stored) ?_
    · rw [first]
      cases arguments <;> rfl
    · intro position inside
      have next := given (position + 1) (by simpa using inside)
      have slot : (scope.bind head.name).2.nextSlot + position =
          scope.nextSlot + (position + 1) := by
        simp only [Scope.bind]
        omega
      rw [slot, next]
      cases arguments <;> simp

end

/-! ## Frames -/

/-- The first slots hold the arguments, and zero for missing ones. -/
theorem getElem?_callFrame (function : Code.Function) (arguments : List Int64) {position : Nat}
    (inside : position < function.parameters) :
    (Machine.callFrame function arguments)[position]? = some (arguments.getD position 0) := by
  simp only [Machine.callFrame, List.getElem?_toArray]
  by_cases given : position < arguments.length
  · have taken : position < (arguments.take function.parameters).length := by
      rw [List.length_take]
      omega
    rw [List.getElem?_append_left taken, List.getElem?_take_of_lt inside]
    simp [given]
  · have missing : (arguments.take function.parameters).length ≤ position := by
      rw [List.length_take]
      omega
    rw [List.getElem?_append_right missing, List.getElem?_replicate_of_lt (by omega)]
    simp [given]

/-! ## Bodies -/

section

variable {σ : Type} {environment : Environment σ} {table : DeclarationTable}

/-- The end of a run without its frame. -/
def withoutFrame : EStateM.Result Stop (Activation σ) Flow → EStateM.Result Stop (State σ) Flow
  | .ok flow after => .ok flow after.state
  | .error stop after => .error stop after.state

theorem insideFrame_eq (frame : Array Int64) (computation : Run (Activation σ) Flow)
    (state : State σ) :
    Machine.insideFrame frame computation state = withoutFrame (computation ⟨frame, state⟩) := by
  unfold Machine.insideFrame
  cases computation ⟨frame, state⟩ <;> rfl

theorem EndsAlike.outside {frames : Frames} {size : Nat} {outcome : Outcome σ}
    {result : EStateM.Result Stop (Activation σ) Flow}
    (alike : EndsAlike frames size outcome result) :
    outcome.outside = withoutFrame result := by
  cases alike with
  | normal holds => simp only [Outcome.outside, withoutFrame, holds.state]
  | returned value state => simp only [Outcome.outside, withoutFrame, state]
  | stopped stop state => simp only [Outcome.outside, withoutFrame, state]

theorem Ended.of_outside {outcome : Outcome σ} (ended : Ended outcome.outside) : Ended outcome := by
  cases outcome with
  | ok flow memory => exact ended_ok _ _
  | error stop memory =>
    rw [ended_error_iff]
    exact (ended_error_iff stop memory.state).mp ended

/-- A call starts with the parameters in the frame. -/
theorem holds_callFrame (table : DeclarationTable) {parameters : List Parameter}
    {function : Code.Function}
    (count : function.parameters = parameters.length) (stated : Option ReturnKind)
    (arguments : List Int64) (state : State σ) :
    Holds (bindParameters table (.ofFunction stated) parameters).value.enter.frames
      (max function.frameSize function.parameters)
      ⟨[[], bindArguments parameters arguments []], state⟩
      ⟨Machine.callFrame function arguments, state⟩ := by
  refine ⟨.cons .nil ?_, Machine.size_callFrame function arguments, rfl⟩
  apply represents_bindParameters parameters arguments rfl .nil
  intro position inside
  rw [show (Scope.ofFunction stated).nextSlot + position = position from Nat.zero_add position]
  exact getElem?_callFrame function arguments (by omega)

/-- An accepted body ends on the source tree as its code does in the frame of a call. -/
theorem yields_iff {stated : Option ReturnKind} {parameters : List Parameter}
    {body : List Statement} {function : Code.Function}
    (known : ∀ name, environment.declares name = (table.lookup name).isSome)
    (accepted : (lowerBody table stated parameters body).Accepted)
    (count : function.parameters = parameters.length)
    (frameSize : function.frameSize = (lowerBody table stated parameters body).value.2.nextSlot)
    (code : function.body = (lowerBody table stated parameters body).value.1)
    {arguments : List Int64} {state : State σ} {result : EStateM.Result Stop (State σ) Flow}
    (ended : Ended result) :
    Yields environment parameters body arguments state result ↔
      ∃ rounds, Machine.insideFrame (Machine.callFrame function arguments)
        (Machine.executeAll (environment.linkage rounds) function.body) state = result := by
  let scope := (bindParameters table (.ofFunction stated) parameters).value
  have grows := Analysis.bindParameters_grows table parameters (.ofFunction stated)
  have separate : scope.frames.Separate scope.nextSlot :=
    grows.separate ⟨List.nodup_nil, fun _ member => by cases member⟩
  simp only [lowerBody, Checked.value_bind] at frameSize code
  have fits : Fits (max function.frameSize function.parameters) scope.enter
      (lowerBlock table scope.enter body) := by
    simp only [lowerBody, Checked.accepted_bind] at accepted
    refine ⟨accepted.2, Analysis.separate_enter separate,
      Analysis.lowerBlock_grows table body scope.enter, ?_⟩
    rw [frameSize]
    exact Nat.le_max_left _ _
  have holds := holds_callFrame table count stated arguments state
  simp only [code, insideFrame_eq]
  constructor
  · rintro ⟨outcome, executes, rfl⟩
    obtain ⟨final, ⟨-, rounds, run⟩, alike⟩ :=
      endsAs_of_executes known executes ended.of_outside fits holds
    refine ⟨rounds, ?_⟩
    rw [alike.outside, ← run]
  · rintro ⟨rounds, run⟩
    have finished : Ended (Machine.executeAll (environment.linkage rounds)
        (lowerBlock table scope.enter body).value.1
        ⟨Machine.callFrame function arguments, state⟩) := by
      intro after cut
      rw [cut] at run
      exact ended _ run.symm
    obtain ⟨outcome, executes, alike⟩ :=
      executes_of_runs known body scope.enter _ _ _ fits holds ⟨finished, rounds, rfl⟩
    refine ⟨outcome, executes, ?_⟩
    rw [alike.outside]
    exact run

end

end IncrementalC.Meaning
