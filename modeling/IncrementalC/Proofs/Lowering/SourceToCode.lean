import IncrementalC.Proofs.Lowering.Fitting

/-!
Contract: statements that come to an end do so in code as well.

Owns: runs of code as runs of its source say they end.

Does not own: why code has no other runs.
-/

namespace IncrementalC.Meaning

open Analysis (Scope Checked lowerInt lowerStatement lowerBlock)
open Machine (Activation)
open Syntax (Expression Statement)

variable {σ : Type} {size : Nat} {environment : Environment σ} {table : DeclarationTable}
  {scope : Scope} {memory : Memory σ} {activation : Activation σ} {outcome : Outcome σ}

/-- Lowered statements end like `outcome`. -/
def EndsAs (environment : Environment σ) (size : Nat)
    (lowered : Checked (List Code.Statement × Scope)) (activation : Activation σ)
    (outcome : Outcome σ) : Prop :=
  ∃ result, Runs environment lowered.value.1 activation result ∧
    EndsAlike lowered.value.2.frames size outcome result

theorem EndsAs.cons {statement : Statement} {rest : List Statement} (memory : Memory σ)
    (head : EndsAs environment size (lowerStatement table scope statement) activation
      (.ok .normal memory))
    (tail : ∀ between,
      Holds (lowerStatement table scope statement).value.2.frames size memory between →
      EndsAs environment size (lowerBlock table (lowerStatement table scope statement).value.2 rest)
        between outcome) :
    EndsAs environment size (lowerBlock table scope (statement :: rest)) activation outcome := by
  obtain ⟨headResult, headRun, headAlike⟩ := head
  cases headAlike with
  | normal holds =>
    obtain ⟨result, tailRun, tailAlike⟩ := tail _ holds
    exact ⟨result, headRun.append tailRun, tailAlike⟩

theorem EndsAs.cons_of_breaks {statement : Statement} {rest : List Statement}
    (head : EndsAs environment size (lowerStatement table scope statement) activation outcome)
    (breaks : outcome.Breaks) :
    EndsAs environment size (lowerBlock table scope (statement :: rest)) activation outcome := by
  obtain ⟨result, run, alike⟩ := head
  exact ⟨result, run.append_of_breaks (alike.result_breaks breaks) _, alike.of_breaks breaks⟩

/-- A block has no code of its own. -/
theorem EndsAs.block {body : List Statement}
    (ends : EndsAs environment size (lowerBlock table scope.enter body) activation outcome) :
    EndsAs environment size (lowerStatement table scope (.block body)) activation outcome.leave := by
  obtain ⟨result, run, alike⟩ := ends
  have left := alike.leave
  rw [(Analysis.lowerBlock_grows table body scope.enter).outer] at left
  exact ⟨result, run, left⟩

/-- The branch that a choice takes. -/
theorem EndsAs.choose {condition : Expression} {whenTrue whenFalse : List Statement}
    {value : Int64} {tested : Activation σ}
    (test : valueOf environment (lowerInt table scope.frames condition).value activation =
      .ok value tested)
    (outcome : Outcome σ)
    (ends :
      let between := (lowerBlock table scope.enter whenTrue).value.2.leaveTo scope
      EndsAs environment size
        (if value = 0 then lowerBlock table between.enter whenFalse
          else lowerBlock table scope.enter whenTrue) tested outcome) :
    EndsAs environment size (lowerStatement table scope (.choose condition whenTrue whenFalse))
      activation outcome.leave := by
  obtain ⟨result, run, alike⟩ := ends
  refine ⟨result, runs_choose_iff.mpr (.inr ⟨value, tested, test, ?_⟩), ?_⟩
  · split at run
    · next zero => rw [if_pos zero]; exact run
    · next nonzero => rw [if_neg nonzero]; exact run
  · have left := alike.leave
    split at left
    · rw [(Analysis.lowerBlock_grows table whenFalse _).outer] at left
      exact left
    · rw [(Analysis.lowerBlock_grows table whenTrue _).outer] at left
      exact left

/-- One more round in front of a loop. -/
theorem EndsAs.again {condition : Expression} {body rest : List Statement} {value : Int64}
    {tested between : Activation σ}
    (test : valueOf environment (lowerInt table scope.frames condition).value activation =
      .ok value tested)
    (holds : value ≠ 0)
    (round : Runs environment (lowerBlock table scope.enter body).value.1 tested
      (.ok .normal between))
    (ends : EndsAs environment size (lowerBlock table scope (.loop condition body :: rest))
      between outcome) :
    EndsAs environment size (lowerBlock table scope (.loop condition body :: rest)) activation
      outcome := by
  obtain ⟨result, run, alike⟩ := ends
  refine ⟨result, ?_, alike⟩
  rcases run.of_append with ⟨after, loop, following⟩ | ⟨loop, breaks⟩
  · exact (runs_loop_iff.mpr (.again test holds round (runs_loop_iff.mp loop))).append following
  · exact (runs_loop_iff.mpr (.again test holds round (runs_loop_iff.mp loop))).append_of_breaks
      breaks _

/-- A declaration stores the value and binds the name. -/
theorem EndsAs.declare {type : Syntax.TypeName} {name : String} {initial : Option Expression}
    {span : Span} {value : Int64} {between : Activation σ}
    (fits : Fits size scope (lowerStatement table scope (.declare type name initial span)))
    (computed : valueOf environment (loweredInitial table scope.frames initial) activation =
      .ok value between)
    (holds : Holds scope.frames size memory between) :
    EndsAs environment size (lowerStatement table scope (.declare type name initial span))
      activation (.ok .normal (memory.bind name value)) := by
  have room : scope.nextSlot < size := by
    have after := fits.room
    simp only [lowerStatement, Checked.value_bind, Checked.value_pure, lowerLocal_value] at after
    exact after
  obtain ⟨final, stored, finalHolds⟩ := store_bind fits.separate room name value holds
  refine ⟨.ok .normal final, ?_, .normal ?_⟩
  · simp only [lowerStatement, Checked.value_bind, Checked.value_pure, lowerLocal_value]
    exact runs_store_iff.mpr ⟨ended_ok _ _, .inl ⟨value, between, computed, stored.symm⟩⟩
  · simp only [lowerStatement, Checked.value_bind, Checked.value_pure, lowerLocal_value]
    exact finalHolds

/-- Statements that come to an end do so in code as well. -/
theorem endsAs_of_executes
    (known : ∀ name, environment.declares name = (table.lookup name).isSome)
    {statements : List Statement} (executes : Executes environment statements memory outcome)
    (ended : Ended outcome) (fits : Fits size scope (lowerBlock table scope statements))
    (holds : Holds scope.frames size memory activation) :
    EndsAs environment size (lowerBlock table scope statements) activation outcome := by
  induction executes generalizing scope activation with
  | done memory => exact ⟨.ok .normal activation, Runs.nil activation, .normal holds⟩
  | declared computed _ ih =>
    obtain ⟨between, lowered, after⟩ := (fits.head.initial_simulates known).ok holds computed
    exact (EndsAs.declare fits.head lowered after).cons _ fun _ start => ih ended fits.tail start
  | @declarationStopped type name initial span rest memory after stop stopped =>
    obtain ⟨final, lowered, state⟩ := (fits.head.initial_simulates known).error holds stopped
    refine EndsAs.cons_of_breaks ⟨.error stop final, ?_, .stopped stop state⟩ (breaks_error _ _)
    simp only [lowerStatement, Checked.value_bind, Checked.value_pure, lowerLocal_value]
    rw [ended_error_iff] at ended
    exact runs_store_iff.mpr ⟨(ended_error_iff _ _).mpr ended, .inr ⟨stop, final, lowered, rfl⟩⟩
  | @evaluated value rest memory after result outcome computed _ ih =>
    obtain ⟨between, lowered, afterHolds⟩ := (fits.head.value_simulates known).ok holds computed
    refine EndsAs.cons after ⟨.ok .normal between, ?_, .normal afterHolds⟩ ?_
    · exact runs_evaluate_iff.mpr ⟨ended_ok _ _, .inl ⟨result, between, lowered, rfl⟩⟩
    · exact fun _ start => ih ended fits.tail start
  | @evaluationStopped value rest memory after stop stopped =>
    obtain ⟨final, lowered, state⟩ := (fits.head.value_simulates known).error holds stopped
    refine EndsAs.cons_of_breaks ⟨.error stop final, ?_, .stopped stop state⟩ (breaks_error _ _)
    rw [ended_error_iff] at ended
    exact runs_evaluate_iff.mpr ⟨(ended_error_iff _ _).mpr ended, .inr ⟨stop, final, lowered, rfl⟩⟩
  | @chosen condition whenTrue whenFalse rest memory tested inner value outcome computed branch _
      branchIh ih =>
    obtain ⟨between, lowered, testedHolds⟩ := (fits.head.choice_simulates known).ok holds computed
    refine EndsAs.cons inner.leave (EndsAs.choose lowered (.ok .normal inner) ?_)
      fun _ start => ih ended fits.tail start
    split
    · next zero =>
      rw [if_pos zero] at branchIh
      exact branchIh (ended_ok _ _) fits.head.whenFalse testedHolds.enter
    · next nonzero =>
      rw [if_neg nonzero] at branchIh
      exact branchIh (ended_ok _ _) fits.head.whenTrue testedHolds.enter
  | @branchBroke condition whenTrue whenFalse rest memory tested value outcome computed branch
      breaks branchIh =>
    obtain ⟨between, lowered, testedHolds⟩ := (fits.head.choice_simulates known).ok holds computed
    refine EndsAs.cons_of_breaks (EndsAs.choose lowered outcome ?_) breaks.leave
    split
    · next zero =>
      rw [if_pos zero] at branchIh
      exact branchIh ended.of_leave fits.head.whenFalse testedHolds.enter
    · next nonzero =>
      rw [if_neg nonzero] at branchIh
      exact branchIh ended.of_leave fits.head.whenTrue testedHolds.enter
  | @choiceStopped condition whenTrue whenFalse rest memory after stop stopped =>
    obtain ⟨final, lowered, state⟩ := (fits.head.choice_simulates known).error holds stopped
    refine EndsAs.cons_of_breaks ⟨.error stop final, ?_, .stopped stop state⟩ (breaks_error _ _)
    rw [ended_error_iff] at ended
    exact runs_choose_iff.mpr (.inl ⟨stop, final, lowered, (ended_error_iff _ _).mpr ended, rfl⟩)
  | @loopEnded condition body rest memory tested outcome computed _ ih =>
    obtain ⟨between, lowered, testedHolds⟩ :=
      (fits.head.condition_simulates known).ok holds computed
    refine EndsAs.cons tested ⟨.ok .normal between, ?_, .normal testedHolds⟩
      fun _ start => ih ended fits.tail start
    exact runs_loop_iff.mpr (.finished lowered)
  | @loopContinued condition body rest memory tested inner value outcome computed nonzero _ _
      roundIh ih =>
    obtain ⟨between, lowered, testedHolds⟩ :=
      (fits.head.condition_simulates known).ok holds computed
    obtain ⟨result, run, alike⟩ := roundIh (ended_ok _ _) fits.head.loopBody testedHolds.enter
    cases alike with
    | normal innerHolds =>
      have left := innerHolds.leave
      rw [(Analysis.lowerBlock_grows table body scope.enter).outer] at left
      exact EndsAs.again lowered nonzero run (ih ended fits left)
  | @roundBroke condition body rest memory tested value outcome computed nonzero _ breaks
      roundIh =>
    obtain ⟨between, lowered, testedHolds⟩ :=
      (fits.head.condition_simulates known).ok holds computed
    obtain ⟨result, run, alike⟩ := roundIh ended.of_leave fits.head.loopBody testedHolds.enter
    refine EndsAs.cons_of_breaks ⟨result, ?_, alike.leave.of_breaks breaks.leave⟩ breaks.leave
    exact runs_loop_iff.mpr (.broke lowered nonzero run (alike.result_breaks breaks))
  | @loopStopped condition body rest memory after stop stopped =>
    obtain ⟨final, lowered, state⟩ := (fits.head.condition_simulates known).error holds stopped
    refine EndsAs.cons_of_breaks ⟨.error stop final, ?_, .stopped stop state⟩ (breaks_error _ _)
    rw [ended_error_iff] at ended
    exact runs_loop_iff.mpr (.stopped lowered ended)
  | @left span rest memory =>
    refine EndsAs.cons_of_breaks ⟨.ok (.returned none) activation, ?_, .returned none holds.state⟩
      (breaks_returned _ _)
    simp only [lowerStatement, Checked.value_bind, Checked.value_pure, lowerReturn_value]
    exact runs_leave_none_iff.mpr rfl
  | @leftWith value span rest memory after result computed =>
    obtain ⟨final, lowered, afterHolds⟩ := (fits.head.result_simulates known).ok holds computed
    refine EndsAs.cons_of_breaks ⟨.ok (.returned (some result)) final, ?_,
      .returned _ afterHolds.state⟩ (breaks_returned _ _)
    simp only [lowerStatement, Checked.value_bind, Checked.value_pure, lowerReturn_value]
    exact runs_leave_iff.mpr ⟨ended_ok _ _, .inl ⟨result, final, lowered, rfl⟩⟩
  | @leaveStopped value span rest memory after stop stopped =>
    obtain ⟨final, lowered, state⟩ := (fits.head.result_simulates known).error holds stopped
    refine EndsAs.cons_of_breaks ⟨.error stop final, ?_, .stopped stop state⟩ (breaks_error _ _)
    simp only [lowerStatement, Checked.value_bind, Checked.value_pure, lowerReturn_value]
    rw [ended_error_iff] at ended
    exact runs_leave_iff.mpr ⟨(ended_error_iff _ _).mpr ended, .inr ⟨stop, final, lowered, rfl⟩⟩
  | @blockEnded body rest memory inner outcome _ _ blockIh ih =>
    have ends := blockIh (ended_ok _ _) fits.head.block holds.enter
    exact ends.block.cons inner.leave fun _ start => ih ended fits.tail start
  | @blockBroke body rest memory outcome _ breaks blockIh =>
    have ends := blockIh ended.of_leave fits.head.block holds.enter
    exact ends.block.cons_of_breaks breaks.leave
  | @skipped rest memory outcome _ ih =>
    refine EndsAs.cons memory ⟨.ok .normal activation, ?_, .normal holds⟩
      fun _ start => ih ended fits.tail start
    exact Runs.nil activation

end IncrementalC.Meaning
