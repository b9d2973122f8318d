import IncrementalC.Proofs.Lowering.Fitting

/-!
Contract: code that comes to an end does so on its source as well.

Owns: how a statement ends, whatever follows it, and that code ends in these ways only.

Does not own: why every such end is one of the code.
-/

namespace IncrementalC.Meaning

open Analysis (Frames Scope Checked lowerStatement lowerBlock)
open Machine (Activation Flow)
open Syntax (Expression Statement)

variable {σ : Type} {frames : Frames} {size : Nat} {environment : Environment σ}
  {table : DeclarationTable} {scope : Scope} {memory after : Memory σ} {activation : Activation σ}
  {outcome : Outcome σ} {result : EStateM.Result Stop (Activation σ) Flow} {statement : Statement}

/-- A statement ends like `outcome`, whatever follows it. -/
structure Performs (environment : Environment σ) (statement : Statement) (memory : Memory σ)
    (outcome : Outcome σ) : Prop where
  normal : ∀ after, outcome = .ok .normal after → ∀ rest final,
    Executes environment rest after final → Executes environment (statement :: rest) memory final
  broken : outcome.Breaks → ∀ rest, Executes environment (statement :: rest) memory outcome

theorem Performs.of_normal
    (continues : ∀ rest final, Executes environment rest after final →
      Executes environment (statement :: rest) memory final) :
    Performs environment statement memory (.ok .normal after) where
  normal := by
    rintro _ ⟨⟩
    exact continues
  broken breaks := absurd rfl (breaks after)

theorem Performs.of_breaks (breaks : outcome.Breaks)
    (ends : ∀ rest, Executes environment (statement :: rest) memory outcome) :
    Performs environment statement memory outcome where
  normal after same := absurd same (breaks after)
  broken _ := ends

/-- Some way in which the statement ends corresponds to the result. -/
def EndsFrom (environment : Environment σ) (frames : Frames) (size : Nat) (statement : Statement)
    (memory : Memory σ) (result : EStateM.Result Stop (Activation σ) Flow) : Prop :=
  ∃ outcome, Performs environment statement memory outcome ∧ EndsAlike frames size outcome result

theorem EndsFrom.normal {final : Activation σ} (holds : Holds frames size after final)
    (continues : ∀ rest final, Executes environment rest after final →
      Executes environment (statement :: rest) memory final) :
    EndsFrom environment frames size statement memory (.ok .normal final) :=
  ⟨.ok .normal after, .of_normal continues, .normal holds⟩

theorem EndsFrom.stopped {stop : Stop} {final : Activation σ} (state : after.state = final.state)
    (ends : ∀ rest, Executes environment (statement :: rest) memory (.error stop after)) :
    EndsFrom environment frames size statement memory (.error stop final) :=
  ⟨.error stop after, .of_breaks (breaks_error _ _) ends, .stopped stop state⟩

/-- What runs inside ends as a block inside. -/
theorem EndsFrom.inside {inner : Frames} (statement : Statement)
    (alike : EndsAlike inner size outcome result)
    (continues : ∀ after, outcome = .ok .normal after → ∀ rest final,
      Executes environment rest after.leave final →
      Executes environment (statement :: rest) memory final)
    (ends : outcome.Breaks → ∀ rest,
      Executes environment (statement :: rest) memory outcome.leave) :
    EndsFrom environment inner.tail size statement memory result := by
  cases alike with
  | normal holds => exact .normal holds.leave (continues _ rfl)
  | @returned inside final value state =>
    have breaks := breaks_returned value inside
    exact ⟨_, .of_breaks breaks.leave (ends breaks), .returned value state⟩
  | @stopped inside final stop state =>
    have breaks := breaks_error stop inside
    exact ⟨_, .of_breaks breaks.leave (ends breaks), .stopped stop state⟩

/-- A loop ends on the source tree as its rounds do. -/
theorem EndsFrom.loop {condition : Expression} {body : List Statement} {inner : Frames}
    {test : Code.Expression} {loweredBody : List Code.Statement} (outer : inner.tail = frames)
    (conditionAlike : Simulates frames size (evaluate environment condition)
      (valueOf environment test))
    (bodyAlike : ∀ memory activation result, Holds ([] :: frames) size memory activation →
      Runs environment loweredBody activation result →
      ∃ outcome, Executes environment body memory outcome ∧ EndsAlike inner size outcome result)
    (loops : Loops environment test loweredBody activation result)
    (holds : Holds frames size memory activation) :
    EndsFrom environment frames size (.loop condition body) memory result := by
  induction loops generalizing memory with
  | stopped tested ended =>
    obtain ⟨after, stopped, state⟩ := conditionAlike.of_error holds tested
    exact .stopped state fun _ => .loopStopped stopped
  | finished tested =>
    obtain ⟨after, computed, afterHolds⟩ := conditionAlike.of_ok holds tested
    exact .normal afterHolds fun _ _ following => .loopEnded computed following
  | again tested nonzero round _ ih =>
    obtain ⟨tested, computed, testedHolds⟩ := conditionAlike.of_ok holds tested
    obtain ⟨roundOutcome, executed, alike⟩ := bodyAlike _ _ _ testedHolds.enter round
    cases alike with
    | normal innerHolds =>
      have left := innerHolds.leave
      rw [outer] at left
      obtain ⟨outcome, performs, ends⟩ := ih left
      refine ⟨outcome, ⟨?_, ?_⟩, ends⟩
      · intro after same rest final following
        exact .loopContinued computed nonzero executed
          (performs.normal after same rest final following)
      · intro breaks rest
        exact .loopContinued computed nonzero executed (performs.broken breaks rest)
  | broke tested nonzero round breaks =>
    obtain ⟨tested, computed, testedHolds⟩ := conditionAlike.of_ok holds tested
    obtain ⟨roundOutcome, executed, alike⟩ := bodyAlike _ _ _ testedHolds.enter round
    have broke := alike.breaks breaks
    rw [← outer]
    refine .inside _ alike (fun after same => absurd same (broke after)) fun _ rest => ?_
    exact .roundBroke computed nonzero executed broke

mutual

/-- Code of a statement that comes to an end does so on the source tree as well. -/
theorem endsFrom_of_runs
    (known : ∀ name, environment.declares name = (table.lookup name).isSome) :
    ∀ (statement : Statement) (scope : Scope) (memory : Memory σ) (activation : Activation σ)
      (result : EStateM.Result Stop (Activation σ) Flow),
      Fits size scope (lowerStatement table scope statement) →
      Holds scope.frames size memory activation →
      Runs environment (lowerStatement table scope statement).value.1 activation result →
      EndsFrom environment (lowerStatement table scope statement).value.2.frames size statement
        memory result
  | .declare type name initial span, scope, memory, activation, result => by
    intro fits holds run
    have room : scope.nextSlot < size := by
      have after := fits.room
      simp only [lowerStatement, Checked.value_bind, Checked.value_pure, lowerLocal_value] at after
      exact after
    simp only [lowerStatement, Checked.value_bind, Checked.value_pure, lowerLocal_value] at run ⊢
    rcases (runs_store_iff.mp run).2 with ⟨value, between, computed, rfl⟩ | ⟨stop, final, stopped, rfl⟩
    · obtain ⟨after, initial, afterHolds⟩ := (fits.initial_simulates known).of_ok holds computed
      obtain ⟨final, stored, finalHolds⟩ := store_bind fits.separate room name value afterHolds
      rw [stored]
      exact .normal finalHolds fun _ _ following => .declared initial following
    · obtain ⟨after, initial, state⟩ := (fits.initial_simulates known).of_error holds stopped
      exact .stopped state fun _ => .declarationStopped initial
  | .evaluate value, scope, memory, activation, result => by
    intro fits holds run
    rcases (runs_evaluate_iff.mp run).2 with ⟨number, between, computed, rfl⟩ |
      ⟨stop, final, stopped, rfl⟩
    · obtain ⟨after, value, afterHolds⟩ := (fits.value_simulates known).of_ok holds computed
      exact .normal afterHolds fun _ _ following => .evaluated value following
    · obtain ⟨after, value, state⟩ := (fits.value_simulates known).of_error holds stopped
      exact .stopped state fun _ => .evaluationStopped value
  | .choose condition whenTrue whenFalse, scope, memory, activation, result => by
    intro fits holds run
    rcases runs_choose_iff.mp run with ⟨stop, final, stopped, -, rfl⟩ |
      ⟨value, between, computed, branch⟩
    · obtain ⟨after, value, state⟩ := (fits.choice_simulates known).of_error holds stopped
      exact .stopped state fun _ => .choiceStopped value
    · obtain ⟨tested, test, testedHolds⟩ := (fits.choice_simulates known).of_ok holds computed
      by_cases zero : value = 0
      · rw [if_pos zero] at branch
        obtain ⟨outcome, executed, alike⟩ := executes_of_runs known whenFalse _ tested.enter between
          result fits.whenFalse testedHolds.enter branch
        have taken : Executes environment (if value = 0 then whenFalse else whenTrue) tested.enter
            outcome := by
          rw [if_pos zero]
          exact executed
        have ends := EndsFrom.inside (.choose condition whenTrue whenFalse) alike
          (by rintro after rfl rest final following; exact .chosen test taken following)
          fun breaks rest => .branchBroke test taken breaks
        rw [(Analysis.lowerBlock_grows table whenFalse _).outer] at ends
        exact ends
      · rw [if_neg zero] at branch
        obtain ⟨outcome, executed, alike⟩ := executes_of_runs known whenTrue _ tested.enter between
          result fits.whenTrue testedHolds.enter branch
        have taken : Executes environment (if value = 0 then whenFalse else whenTrue) tested.enter
            outcome := by
          rw [if_neg zero]
          exact executed
        have ends := EndsFrom.inside (.choose condition whenTrue whenFalse) alike
          (by rintro after rfl rest final following; exact .chosen test taken following)
          fun breaks rest => .branchBroke test taken breaks
        rw [(Analysis.lowerBlock_grows table whenTrue _).outer] at ends
        exact ends
  | .loop condition body, scope, memory, activation, result => by
    intro fits holds run
    have outer := (Analysis.lowerBlock_grows table body scope.enter).outer
    refine EndsFrom.loop outer (fits.condition_simulates known) ?_ (runs_loop_iff.mp run) holds
    intro memory activation result holds run
    exact executes_of_runs known body scope.enter memory activation result fits.loopBody holds run
  | .leave none span, scope, memory, activation, result => by
    intro fits holds run
    simp only [lowerStatement, Checked.value_bind, Checked.value_pure, lowerReturn_value] at run
    obtain rfl := runs_leave_none_iff.mp run
    exact ⟨_, .of_breaks (breaks_returned _ _) fun _ => .left, .returned none holds.state⟩
  | .leave (some value) span, scope, memory, activation, result => by
    intro fits holds run
    simp only [lowerStatement, Checked.value_bind, Checked.value_pure, lowerReturn_value] at run
    rcases (runs_leave_iff.mp run).2 with ⟨number, between, computed, rfl⟩ |
      ⟨stop, final, stopped, rfl⟩
    · obtain ⟨after, value, afterHolds⟩ := (fits.result_simulates known).of_ok holds computed
      exact ⟨_, .of_breaks (breaks_returned _ _) fun _ => .leftWith value,
        .returned (some number) afterHolds.state⟩
    · obtain ⟨after, value, state⟩ := (fits.result_simulates known).of_error holds stopped
      exact .stopped state fun _ => .leaveStopped value
  | .block body, scope, memory, activation, result => by
    intro fits holds run
    obtain ⟨outcome, executed, alike⟩ := executes_of_runs known body scope.enter memory.enter
      activation result fits.block holds.enter run
    have ends := EndsFrom.inside (.block body) alike
      (by rintro after rfl rest final following; exact .blockEnded executed following)
      fun breaks rest => .blockBroke executed breaks
    rw [(Analysis.lowerBlock_grows table body scope.enter).outer] at ends
    exact ends
  | .empty, scope, memory, activation, result => by
    intro fits holds run
    obtain ⟨-, rounds, run⟩ := run
    obtain rfl : result = .ok .normal activation := run.symm
    exact .normal holds fun _ _ following => .skipped following

/-- Code of statements that comes to an end does so on the source tree as well. -/
theorem executes_of_runs
    (known : ∀ name, environment.declares name = (table.lookup name).isSome) :
    ∀ (statements : List Statement) (scope : Scope) (memory : Memory σ)
      (activation : Activation σ) (result : EStateM.Result Stop (Activation σ) Flow),
      Fits size scope (lowerBlock table scope statements) →
      Holds scope.frames size memory activation →
      Runs environment (lowerBlock table scope statements).value.1 activation result →
      ∃ outcome, Executes environment statements memory outcome ∧
        EndsAlike (lowerBlock table scope statements).value.2.frames size outcome result
  | [], scope, memory, activation, result => by
    intro fits holds run
    obtain ⟨-, rounds, run⟩ := run
    obtain rfl : result = .ok .normal activation := run.symm
    exact ⟨_, .done memory, .normal holds⟩
  | head :: tail, scope, memory, activation, result => by
    intro fits holds run
    rcases Runs.of_append run with ⟨between, headRun, tailRun⟩ | ⟨headRun, breaks⟩
    · obtain ⟨outcome, performs, alike⟩ :=
        endsFrom_of_runs known head scope memory activation _ fits.head holds headRun
      cases alike with
      | @normal after _ afterHolds =>
        obtain ⟨final, executed, finalAlike⟩ := executes_of_runs known tail _ after between result
          fits.tail afterHolds tailRun
        exact ⟨final, performs.normal after rfl tail final executed, finalAlike⟩
    · obtain ⟨outcome, performs, alike⟩ :=
        endsFrom_of_runs known head scope memory activation result fits.head holds headRun
      have broke := alike.breaks breaks
      exact ⟨outcome, performs.broken broke tail, alike.of_breaks broke⟩

end

end IncrementalC.Meaning
