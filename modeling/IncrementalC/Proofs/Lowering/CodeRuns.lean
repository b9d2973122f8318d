import IncrementalC.Proofs.Lowering.Meaning

/-!
Contract: runs of lowered code that come to an end.

A run is given a number of rounds for each of its loops. A run that ends within them
ends the same way with more rounds, so how code ends does not depend on the number, as
long as it is large enough.

Owns: runs with enough rounds, and how they are put together and taken apart.

Does not own: source text.
-/

namespace IncrementalC.Meaning

open Machine (Run State Activation Flow executeAll repeatWhile)
open Code (Expression Statement)

/-- What lowered code reaches when a run is given `rounds` rounds for each loop. -/
def Environment.linkage {σ : Type} (environment : Environment σ) (rounds : Nat) :
    Machine.Linkage σ :=
  ⟨environment.call, environment.registerAtExit, rounds⟩

/-- The run was not cut short. -/
def Ended {S α : Type} (result : EStateM.Result Stop S α) : Prop :=
  ∀ after, result ≠ .error (.breakdown .endlessLoop) after

theorem ended_ok {S α : Type} (value : α) (after : S) :
    Ended (.ok value after : EStateM.Result Stop S α) := fun _ same => by cases same

theorem ended_error_iff {S α : Type} (stop : Stop) (after : S) :
    Ended (.error stop after : EStateM.Result Stop S α) ↔ stop ≠ .breakdown .endlessLoop := by
  constructor
  · rintro ended rfl
    exact ended after rfl
  · intro other final same
    cases same
    exact other rfl

variable {σ : Type} {environment : Environment σ}

/-! ## Lists of statements -/

theorem executeAll_append (linkage : Machine.Linkage σ) (first second : List Statement)
    (activation : Activation σ) :
    executeAll linkage (first ++ second) activation =
      match executeAll linkage first activation with
      | .ok .normal after => executeAll linkage second after
      | .ok (.returned value) after => .ok (.returned value) after
      | .error stop after => .error stop after := by
  induction first generalizing activation with
  | nil => rfl
  | cons head tail inductionHypothesis =>
    show EStateM.bind (Machine.execute linkage head) _ activation = _
    rw [show executeAll linkage (head :: tail) activation =
      EStateM.bind (Machine.execute linkage head) _ activation from rfl]
    unfold EStateM.bind
    cases Machine.execute linkage head activation with
    | error stop after => rfl
    | ok flow after =>
      cases flow with
      | returned value => rfl
      | normal => exact inductionHypothesis after

theorem executeAll_singleton (linkage : Machine.Linkage σ) (statement : Statement)
    (activation : Activation σ) :
    executeAll linkage [statement] activation = Machine.execute linkage statement activation := by
  show EStateM.bind (Machine.execute linkage statement) _ activation = _
  unfold EStateM.bind
  cases Machine.execute linkage statement activation with
  | error stop after => rfl
  | ok flow after => cases flow <;> rfl

/-! ## Rounds -/

mutual

/-- Rounds play no part in expressions. -/
theorem evaluate_rounds (rounds others : Nat) : ∀ expression : Expression,
    Machine.evaluate (environment.linkage rounds) expression =
      Machine.evaluate (environment.linkage others) expression
  | .integer _ => rfl
  | .slot _ => rfl
  | .global _ => rfl
  | .assignSlot slot value => by
    simp only [Machine.evaluate, evaluate_rounds rounds others value]
  | .assignGlobal name value => by
    simp only [Machine.evaluate, evaluate_rounds rounds others value]
  | .call callee arguments => by
    simp only [Machine.evaluate, evaluateAll_rounds rounds others arguments]
    rfl
  | .atExit function argument => by
    simp only [Machine.evaluate, evaluate_rounds rounds others argument]
    rfl
  | .unary operator operand => by
    simp only [Machine.evaluate, evaluate_rounds rounds others operand]
  | .binary operator left right => by
    simp only [Machine.evaluate, evaluate_rounds rounds others left,
      evaluate_rounds rounds others right]
  | .and left right => by
    simp only [Machine.evaluate, evaluate_rounds rounds others left,
      evaluate_rounds rounds others right]
  | .or left right => by
    simp only [Machine.evaluate, evaluate_rounds rounds others left,
      evaluate_rounds rounds others right]

theorem evaluateAll_rounds (rounds others : Nat) : ∀ expressions : List Expression,
    Machine.evaluateAll (environment.linkage rounds) expressions =
      Machine.evaluateAll (environment.linkage others) expressions
  | [] => rfl
  | head :: tail => by
    simp only [Machine.evaluateAll, evaluate_rounds rounds others head,
      evaluateAll_rounds rounds others tail]

end

/-- A loop that ends within some rounds ends the same way within more. -/
theorem repeatWhile_mono {condition : Run (Activation σ) Int64}
    {body longer : Run (Activation σ) Flow}
    (grows : ∀ activation, Ended (body activation) → longer activation = body activation)
    {rounds more : Nat} (le : rounds ≤ more) {activation : Activation σ}
    (ended : Ended (repeatWhile condition body rounds activation)) :
    repeatWhile condition longer more activation =
      repeatWhile condition body rounds activation := by
  induction rounds generalizing more activation with
  | zero => exact absurd rfl (ended activation)
  | succ rounds inductionHypothesis =>
    obtain ⟨rest, rfl⟩ := Nat.exists_eq_add_of_lt (Nat.lt_of_succ_le le)
    simp only [repeatWhile] at ended ⊢
    cases tested : condition activation with
    | error stop after => rfl
    | ok value after =>
      simp only [tested] at ended ⊢
      by_cases zero : value = 0
      · simp only [if_pos zero]
      · simp only [if_neg zero] at ended ⊢
        have same : longer after = body after := by
          refine grows after fun final cut => ?_
          rw [cut] at ended
          exact ended final rfl
        rw [same]
        cases finished : body after with
        | error stop final => rfl
        | ok flow final =>
          cases flow with
          | returned result => rfl
          | normal =>
            simp only [finished] at ended ⊢
            exact inductionHypothesis (by omega) ended

mutual

/-- Code that ends within some rounds ends the same way within more. -/
theorem execute_mono {rounds more : Nat} (le : rounds ≤ more) :
    ∀ (statement : Statement) (activation : Activation σ),
      Ended (Machine.execute (environment.linkage rounds) statement activation) →
      Machine.execute (environment.linkage more) statement activation =
        Machine.execute (environment.linkage rounds) statement activation
  | .evaluate value, activation => by
    intro _
    simp only [Machine.execute, evaluate_rounds more rounds value]
  | .store slot value, activation => by
    intro _
    simp only [Machine.execute, evaluate_rounds more rounds value]
  | .choose condition whenTrue whenFalse, activation => by
    intro ended
    simp only [Machine.execute, evaluate_rounds more rounds condition] at ended ⊢
    show EStateM.bind _ _ activation = EStateM.bind _ _ activation
    replace ended : Ended (EStateM.bind _ _ activation) := ended
    unfold EStateM.bind at ended ⊢
    cases tested : Machine.evaluate (environment.linkage rounds) condition activation with
    | error stop after => rfl
    | ok value after =>
      simp only [tested] at ended ⊢
      by_cases zero : value = 0
      · simp only [if_pos zero] at ended ⊢
        exact executeAll_mono le whenFalse after ended
      · simp only [if_neg zero] at ended ⊢
        exact executeAll_mono le whenTrue after ended
  | .loop condition body, activation => by
    intro ended
    simp only [Machine.execute, evaluate_rounds more rounds condition] at ended ⊢
    exact repeatWhile_mono (executeAll_mono le body) le ended
  | .leave none, activation => fun _ => rfl
  | .leave (some value), activation => by
    intro _
    simp only [Machine.execute, evaluate_rounds more rounds value]

theorem executeAll_mono {rounds more : Nat} (le : rounds ≤ more) :
    ∀ (statements : List Statement) (activation : Activation σ),
      Ended (executeAll (environment.linkage rounds) statements activation) →
      executeAll (environment.linkage more) statements activation =
        executeAll (environment.linkage rounds) statements activation
  | [], activation => fun _ => rfl
  | head :: tail, activation => by
    intro ended
    show EStateM.bind _ _ activation = EStateM.bind _ _ activation
    replace ended : Ended (EStateM.bind _ _ activation) := ended
    unfold EStateM.bind at ended ⊢
    have same : Machine.execute (environment.linkage more) head activation =
        Machine.execute (environment.linkage rounds) head activation := by
      refine execute_mono le head activation fun final cut => ?_
      rw [cut] at ended
      exact ended final rfl
    rw [same]
    cases finished : Machine.execute (environment.linkage rounds) head activation with
    | error stop after => rfl
    | ok flow after =>
      cases flow with
      | returned value => rfl
      | normal =>
        simp only [finished] at ended
        exact executeAll_mono le tail after ended

end

/-! ## Runs with enough rounds -/

/-- With enough rounds, the code ends with `result`. -/
def Runs (environment : Environment σ) (code : List Statement) (activation : Activation σ)
    (result : EStateM.Result Stop (Activation σ) Flow) : Prop :=
  Ended result ∧ ∃ rounds, executeAll (environment.linkage rounds) code activation = result

/-- The value of an expression, whatever the rounds. -/
def valueOf (environment : Environment σ) (expression : Expression) : Run (Activation σ) Int64 :=
  Machine.evaluate (environment.linkage 0) expression

namespace Runs

variable {first second code : List Statement} {activation after : Activation σ}
  {result : EStateM.Result Stop (Activation σ) Flow}

theorem nil (activation : Activation σ) :
    Runs environment [] activation (.ok .normal activation) := ⟨ended_ok _ _, 0, rfl⟩

theorem append (head : Runs environment first activation (.ok .normal after))
    (tail : Runs environment second after result) :
    Runs environment (first ++ second) activation result := by
  obtain ⟨headEnded, headRounds, headRun⟩ := head
  obtain ⟨tailEnded, tailRounds, tailRun⟩ := tail
  refine ⟨tailEnded, max headRounds tailRounds, ?_⟩
  have headMore := executeAll_mono (Nat.le_max_left headRounds tailRounds) first activation
    (by rw [headRun]; exact headEnded)
  have tailMore := executeAll_mono (Nat.le_max_right headRounds tailRounds) second after
    (by rw [tailRun]; exact tailEnded)
  rw [executeAll_append, headMore, headRun]
  show executeAll _ second after = result
  rw [tailMore, tailRun]

theorem append_of_breaks (head : Runs environment first activation result)
    (breaks : ∀ after, result ≠ .ok .normal after) (second : List Statement) :
    Runs environment (first ++ second) activation result := by
  obtain ⟨ended, rounds, run⟩ := head
  refine ⟨ended, rounds, ?_⟩
  rw [executeAll_append, run]
  cases result with
  | error stop after => rfl
  | ok flow after =>
    cases flow with
    | normal => exact absurd rfl (breaks after)
    | returned value => rfl

/-- A run of two lists is a run of the first, followed by one of the second if the
first ends normally. -/
theorem of_append (run : Runs environment (first ++ second) activation result) :
    (∃ between, Runs environment first activation (.ok .normal between) ∧
        Runs environment second between result) ∨
      (Runs environment first activation result ∧ ∀ after, result ≠ .ok .normal after) := by
  obtain ⟨ended, rounds, run⟩ := run
  rw [executeAll_append] at run
  cases finished : executeAll (environment.linkage rounds) first activation with
  | error stop after =>
    rw [finished] at run
    subst run
    exact .inr ⟨⟨ended, rounds, finished⟩, fun _ same => by cases same⟩
  | ok flow after =>
    rw [finished] at run
    cases flow with
    | returned value =>
      subst run
      exact .inr ⟨⟨ended, rounds, finished⟩, fun _ same => by cases same⟩
    | normal => exact .inl ⟨after, ⟨ended_ok _ _, rounds, finished⟩, ended, rounds, run⟩

end Runs

/-! ## Single statements -/

theorem evaluate_eq_valueOf (rounds : Nat) (expression : Expression) :
    Machine.evaluate (environment.linkage rounds) expression = valueOf environment expression :=
  evaluate_rounds rounds 0 expression

/-- Running a single statement. -/
theorem runs_singleton_iff {statement : Statement} {activation : Activation σ}
    {result : EStateM.Result Stop (Activation σ) Flow} :
    Runs environment [statement] activation result ↔
      Ended result ∧
        ∃ rounds, Machine.execute (environment.linkage rounds) statement activation = result := by
  simp only [Runs, executeAll_singleton]

/-- A statement that computes a value first and has no statements inside. -/
theorem runs_after_value_iff {statement : Statement} {value : Expression}
    (next : Int64 → Activation σ → EStateM.Result Stop (Activation σ) Flow)
    (shape : ∀ rounds activation,
      Machine.execute (environment.linkage rounds) statement activation =
        match valueOf environment value activation with
        | .ok number after => next number after
        | .error stop after => .error stop after)
    {activation : Activation σ} {result : EStateM.Result Stop (Activation σ) Flow} :
    Runs environment [statement] activation result ↔
      Ended result ∧
        ((∃ number after, valueOf environment value activation = .ok number after ∧
            result = next number after) ∨
          ∃ stop after, valueOf environment value activation = .error stop after ∧
            result = .error stop after) := by
  simp only [runs_singleton_iff, shape, exists_const, and_congr_right_iff]
  intro _
  cases valueOf environment value activation with
  | ok number after =>
    constructor
    · intro run
      exact .inl ⟨number, after, rfl, run.symm⟩
    · rintro (⟨other, final, same, run⟩ | ⟨stop, final, absurdity, -⟩)
      · cases same
        exact run.symm
      · cases absurdity
  | error stop after =>
    constructor
    · intro run
      exact .inr ⟨stop, after, rfl, run.symm⟩
    · rintro (⟨number, final, absurdity, -⟩ | ⟨other, final, same, run⟩)
      · cases absurdity
      · cases same
        exact run.symm

theorem runs_evaluate_iff {value : Expression} {activation : Activation σ}
    {result : EStateM.Result Stop (Activation σ) Flow} :
    Runs environment [.evaluate value] activation result ↔
      Ended result ∧
        ((∃ number after, valueOf environment value activation = .ok number after ∧
            result = .ok .normal after) ∨
          ∃ stop after, valueOf environment value activation = .error stop after ∧
            result = .error stop after) := by
  refine runs_after_value_iff (fun _ after => .ok .normal after) ?_
  intro rounds activation
  simp only [Machine.execute, evaluate_eq_valueOf]
  show EStateM.bind _ _ activation = _
  unfold EStateM.bind
  cases valueOf environment value activation <;> rfl

theorem runs_store_iff {slot : Nat} {value : Expression} {activation : Activation σ}
    {result : EStateM.Result Stop (Activation σ) Flow} :
    Runs environment [.store slot value] activation result ↔
      Ended result ∧
        ((∃ number after, valueOf environment value activation = .ok number after ∧
            result = (do
              Machine.writeSlot slot number
              return Flow.normal : Run (Activation σ) Flow) after) ∨
          ∃ stop after, valueOf environment value activation = .error stop after ∧
            result = .error stop after) := by
  refine runs_after_value_iff (fun number after =>
    (do
      Machine.writeSlot slot number
      return Flow.normal : Run (Activation σ) Flow) after) ?_
  intro rounds activation
  simp only [Machine.execute, evaluate_eq_valueOf]
  show EStateM.bind _ _ activation = _
  unfold EStateM.bind
  cases valueOf environment value activation <;> rfl

theorem runs_leave_iff {value : Expression} {activation : Activation σ}
    {result : EStateM.Result Stop (Activation σ) Flow} :
    Runs environment [.leave (some value)] activation result ↔
      Ended result ∧
        ((∃ number after, valueOf environment value activation = .ok number after ∧
            result = .ok (.returned (some number)) after) ∨
          ∃ stop after, valueOf environment value activation = .error stop after ∧
            result = .error stop after) := by
  refine runs_after_value_iff (fun number after => .ok (.returned (some number)) after) ?_
  intro rounds activation
  simp only [Machine.execute, evaluate_eq_valueOf]
  show EStateM.bind _ _ activation = _
  unfold EStateM.bind
  cases valueOf environment value activation <;> rfl

theorem runs_leave_none_iff {activation : Activation σ}
    {result : EStateM.Result Stop (Activation σ) Flow} :
    Runs environment [.leave none] activation result ↔
      result = .ok (.returned none) activation := by
  rw [runs_singleton_iff]
  constructor
  · rintro ⟨-, rounds, run⟩
    exact run.symm
  · rintro rfl
    exact ⟨ended_ok _ _, 0, rfl⟩

theorem execute_choose (rounds : Nat) (condition : Expression)
    (whenTrue whenFalse : List Statement) (activation : Activation σ) :
    Machine.execute (environment.linkage rounds) (.choose condition whenTrue whenFalse)
        activation =
      match valueOf environment condition activation with
      | .ok value after =>
        executeAll (environment.linkage rounds) (if value = 0 then whenFalse else whenTrue) after
      | .error stop after => .error stop after := by
  simp only [Machine.execute, evaluate_eq_valueOf]
  show EStateM.bind _ _ activation = _
  unfold EStateM.bind
  cases valueOf environment condition activation with
  | error stop after => rfl
  | ok value after =>
    by_cases zero : value = 0
    · simp only [if_pos zero]
    · simp only [if_neg zero]

/-- A choice runs one of its branches, unless its condition stops. -/
theorem runs_choose_iff {condition : Expression} {whenTrue whenFalse : List Statement}
    {activation : Activation σ} {result : EStateM.Result Stop (Activation σ) Flow} :
    Runs environment [.choose condition whenTrue whenFalse] activation result ↔
      (∃ stop after, valueOf environment condition activation = .error stop after ∧
          Ended result ∧ result = .error stop after) ∨
        ∃ value after, valueOf environment condition activation = .ok value after ∧
          Runs environment (if value = 0 then whenFalse else whenTrue) after result := by
  rw [runs_singleton_iff]
  simp only [execute_choose]
  cases valueOf environment condition activation with
  | ok value after =>
    constructor
    · rintro ⟨ended, rounds, run⟩
      exact .inr ⟨value, after, rfl, ended, rounds, run⟩
    · rintro (⟨stop, final, absurdity, -⟩ | ⟨other, final, same, run⟩)
      · cases absurdity
      · cases same
        exact run
  | error stop after =>
    constructor
    · rintro ⟨ended, rounds, run⟩
      exact .inl ⟨stop, after, rfl, ended, run.symm⟩
    · rintro (⟨other, final, same, ended, run⟩ | ⟨value, final, absurdity, -⟩)
      · cases same
        exact ⟨ended, 0, run.symm⟩
      · cases absurdity

/-! ## Loops -/

/-- How a loop comes to an end. -/
inductive Loops (environment : Environment σ) (condition : Expression) (body : List Statement) :
    Activation σ → EStateM.Result Stop (Activation σ) Flow → Prop where
  | stopped {activation after : Activation σ} {stop : Stop}
      (tested : valueOf environment condition activation = .error stop after)
      (ended : stop ≠ .breakdown .endlessLoop) :
      Loops environment condition body activation (.error stop after)
  | finished {activation after : Activation σ}
      (tested : valueOf environment condition activation = .ok 0 after) :
      Loops environment condition body activation (.ok .normal after)
  | again {activation after between : Activation σ} {value : Int64}
      {result : EStateM.Result Stop (Activation σ) Flow}
      (tested : valueOf environment condition activation = .ok value after)
      (holds : value ≠ 0) (round : Runs environment body after (.ok .normal between))
      (rest : Loops environment condition body between result) :
      Loops environment condition body activation result
  | broke {activation after : Activation σ} {value : Int64}
      {result : EStateM.Result Stop (Activation σ) Flow}
      (tested : valueOf environment condition activation = .ok value after)
      (holds : value ≠ 0) (round : Runs environment body after result)
      (breaks : ∀ final, result ≠ .ok .normal final) :
      Loops environment condition body activation result

variable {condition : Expression} {body : List Statement} {activation : Activation σ}
  {result : EStateM.Result Stop (Activation σ) Flow}

theorem loops_of_repeatWhile {rounds count : Nat}
    (run : repeatWhile (valueOf environment condition)
      (executeAll (environment.linkage rounds) body) count activation = result)
    (ended : Ended result) : Loops environment condition body activation result := by
  induction count generalizing activation with
  | zero => exact absurd run.symm (ended activation)
  | succ count inductionHypothesis =>
    simp only [repeatWhile] at run
    cases tested : valueOf environment condition activation with
    | error stop after =>
      simp only [tested] at run
      subst run
      apply Loops.stopped tested
      rintro rfl
      exact ended after rfl
    | ok value after =>
      simp only [tested] at run
      by_cases zero : value = 0
      · rw [if_pos zero] at run
        subst run zero
        exact .finished tested
      · rw [if_neg zero] at run
        cases finished : executeAll (environment.linkage rounds) body after with
        | error stop final =>
          simp only [finished] at run
          subst run
          exact .broke tested zero ⟨ended, rounds, finished⟩ fun _ same => by cases same
        | ok flow final =>
          cases flow with
          | returned number =>
            simp only [finished] at run
            subst run
            exact .broke tested zero ⟨ended, rounds, finished⟩ fun _ same => by cases same
          | normal =>
            simp only [finished] at run
            exact .again tested zero ⟨ended_ok _ _, rounds, finished⟩ (inductionHypothesis run)

theorem repeatWhile_of_loops (loops : Loops environment condition body activation result) :
    Ended result ∧ ∃ rounds, repeatWhile (valueOf environment condition)
      (executeAll (environment.linkage rounds) body) rounds activation = result := by
  induction loops with
  | @stopped activation after stop tested ended =>
    refine ⟨fun final same => ended (by cases same; rfl), 1, ?_⟩
    simp only [repeatWhile, tested]
  | finished tested =>
    refine ⟨ended_ok _ _, 1, ?_⟩
    simp only [repeatWhile, tested, if_true]
  | @again activation after between value result tested holds round rest inductionHypothesis =>
    obtain ⟨ended, restRounds, restRun⟩ := inductionHypothesis
    obtain ⟨roundEnded, roundRounds, roundRun⟩ := round
    -- One round more than the rest needs, and enough for the body.
    refine ⟨ended, max restRounds roundRounds + 1, ?_⟩
    have bodyMore := executeAll_mono (show roundRounds ≤ max restRounds roundRounds + 1 by omega)
      body after (by rw [roundRun]; exact roundEnded)
    have restMore := repeatWhile_mono
      (executeAll_mono (show restRounds ≤ max restRounds roundRounds + 1 by omega) body)
      (Nat.le_max_left restRounds roundRounds)
      (show Ended (repeatWhile (valueOf environment condition) _ restRounds between) by
        rw [restRun]; exact ended)
    simp only [repeatWhile, tested, if_neg holds, bodyMore, roundRun]
    rw [restMore, restRun]
  | @broke activation after value result tested holds round breaks =>
    obtain ⟨ended, rounds, run⟩ := round
    refine ⟨ended, rounds + 1, ?_⟩
    have bodyMore := executeAll_mono (Nat.le_succ rounds) body after (by rw [run]; exact ended)
    simp only [repeatWhile, tested, if_neg holds, bodyMore, run]
    cases result with
    | error stop final => rfl
    | ok flow final =>
      cases flow with
      | normal => exact absurd rfl (breaks final)
      | returned number => rfl

/-- A loop runs round by round. -/
theorem runs_loop_iff :
    Runs environment [.loop condition body] activation result ↔
      Loops environment condition body activation result := by
  have unfolded : ∀ rounds, Machine.execute (environment.linkage rounds) (.loop condition body) =
      repeatWhile (valueOf environment condition)
        (executeAll (environment.linkage rounds) body) rounds := by
    intro rounds
    simp only [Machine.execute, evaluate_eq_valueOf]
    rfl
  rw [runs_singleton_iff]
  simp only [unfolded]
  constructor
  · rintro ⟨ended, rounds, run⟩
    exact loops_of_repeatWhile run ended
  · exact repeatWhile_of_loops

end IncrementalC.Meaning
