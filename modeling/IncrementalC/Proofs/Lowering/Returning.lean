import IncrementalC.Proofs.Lowering.Program
import IncrementalC.Proofs.Lowering.Typing

/-!
Contract: a function that is not reported to miss a return never misses one.

Whether a statement always returns is read off its source. Lowering flattens blocks and keeps
the answer, and code of which it is said never comes to its end in a normal way. A function
that returns an integer has no accepted return statement without a value. So its code can only
end by giving back a value.

Owns:
- which lowered code always returns, and how it ends;
- that accepted return statements give a value where one is needed.

Does not own: whether a body ends at all.
-/

namespace IncrementalC

/-! ## Code that always returns -/

namespace Code

mutual

/-- Whether every way through a lowered statement ends in a return. -/
def Statement.alwaysReturns : Statement → Bool
  | .leave _ => true
  | .choose _ whenTrue whenFalse =>
    Statement.someAlwaysReturns whenTrue && Statement.someAlwaysReturns whenFalse
  | .evaluate _ | .store _ _ | .loop _ _ => false

/-- Whether some lowered statement of a list returns on every way through it. -/
def Statement.someAlwaysReturns : List Statement → Bool
  | [] => false
  | head :: tail => head.alwaysReturns || Statement.someAlwaysReturns tail

end

theorem Statement.someAlwaysReturns_append (first second : List Statement) :
    Statement.someAlwaysReturns (first ++ second) =
      (Statement.someAlwaysReturns first || Statement.someAlwaysReturns second) := by
  induction first with
  | nil => rfl
  | cons head tail inductionHypothesis =>
    simp only [List.cons_append, Statement.someAlwaysReturns, inductionHypothesis, Bool.or_assoc]

theorem Statement.someAlwaysReturns_singleton (statement : Statement) :
    Statement.someAlwaysReturns [statement] = statement.alwaysReturns := Bool.or_false _

end Code

namespace Analysis

open Syntax (Expression Statement TypeName Parameter)

mutual

/-- Lowering a statement keeps whether it always returns. -/
theorem alwaysReturns_lowerStatement (table : DeclarationTable) :
    ∀ (statement : Statement) (scope : Scope),
      Code.Statement.someAlwaysReturns (lowerStatement table scope statement).value.1 =
        alwaysReturns statement
  | .declare type name initial span, scope => by
    simp only [lowerStatement, Checked.value_bind, Checked.value_pure, Meaning.lowerLocal_value]
    rfl
  | .evaluate value, scope => rfl
  | .choose condition whenTrue whenFalse, scope => by
    simp only [lowerStatement, Checked.value_bind, Checked.value_pure,
      Code.Statement.someAlwaysReturns_singleton, Code.Statement.alwaysReturns, alwaysReturns,
      someAlwaysReturns_lowerBlock table]
  | .loop condition body, scope => rfl
  | .leave value span, scope => by
    simp only [lowerStatement, Checked.value_bind, Checked.value_pure, Meaning.lowerReturn_value]
    rfl
  | .block body, scope => someAlwaysReturns_lowerBlock table body scope.enter
  | .empty, scope => rfl

theorem someAlwaysReturns_lowerBlock (table : DeclarationTable) :
    ∀ (statements : List Statement) (scope : Scope),
      Code.Statement.someAlwaysReturns (lowerBlock table scope statements).value.1 =
        someAlwaysReturns statements
  | [], scope => rfl
  | head :: tail, scope => by
    simp only [lowerBlock, Checked.value_bind, Checked.value_pure,
      Code.Statement.someAlwaysReturns_append, someAlwaysReturns,
      alwaysReturns_lowerStatement table head, someAlwaysReturns_lowerBlock table tail]

end

end Analysis

/-! ## How code ends -/

namespace Machine

open Code (Statement)

/-- Whenever the computation is not stopped, its result has the property. -/
def Finishing {S α : Type} (property : α → Prop) (computation : Run S α) : Prop :=
  ∀ state value after, computation state = .ok value after → property value

section

variable {S α β : Type} {property : α → Prop} {later : β → Prop}

theorem Finishing.pure {value : α} (holds : property value) :
    Finishing property (Pure.pure value : Run S α) := by
  rintro state _ _ ⟨⟩
  exact holds

theorem Finishing.mono {computation : Run S α} {weaker : α → Prop}
    (finishing : Finishing property computation)
    (implies : ∀ value, property value → weaker value) : Finishing weaker computation :=
  fun state value after finished => implies value (finishing state value after finished)

theorem Finishing.bind {computation : Run S α} {next : α → Run S β}
    (first : Finishing property computation)
    (rest : ∀ value, property value → Finishing later (next value)) :
    Finishing later (computation >>= next) := by
  intro state value after finished
  replace finished : EStateM.bind computation next state = .ok value after := finished
  unfold EStateM.bind at finished
  cases started : computation state with
  | error stop between =>
    rw [started] at finished
    cases finished
  | ok result between =>
    rw [started] at finished
    exact rest result (first state result between started) between value after finished

/-- What comes first may have any result. -/
theorem Finishing.andThen {computation : Run S α} {next : α → Run S β}
    (rest : ∀ value, Finishing later (next value)) : Finishing later (computation >>= next) :=
  Finishing.bind (fun _ _ _ _ => trivial) fun value (_ : True) => rest value

end

/-- The code ends in the normal way only if it need not return, and gives a value back only if
one of its return statements does. -/
def Flow.EndsLike (always : Bool) (returned : List (Option Code.Expression)) : Flow → Prop
  | .normal => always = false
  | .returned value => ∃ given ∈ returned, value.isSome = given.isSome

section

variable {σ : Type} {always : Bool} {returned more : List (Option Code.Expression)} {flow : Flow}

theorem Flow.EndsLike.mono (ends : flow.EndsLike always returned) {other : Bool}
    (mayToo : always = false → other = false) (subset : returned ⊆ more) :
    flow.EndsLike other more := by
  cases flow with
  | normal => exact mayToo ends
  | returned value =>
    obtain ⟨given, member, same⟩ := ends
    exact ⟨given, subset member, same⟩

/-- A loop ends in the normal way, or as a round of it returns. -/
theorem repeatWhile_finishing {condition : Run (Activation σ) Int64}
    {body : Run (Activation σ) Flow} (round : Finishing (Flow.EndsLike always returned) body)
    (rounds : Nat) :
    Finishing (Flow.EndsLike false returned) (repeatWhile condition body rounds) := by
  induction rounds with
  | zero => exact fun _ _ _ finished => nomatch finished
  | succ rounds inductionHypothesis =>
    intro activation flow after finished
    simp only [repeatWhile] at finished
    cases tested : condition activation with
    | error stop between =>
      rw [tested] at finished
      cases finished
    | ok value between =>
      simp only [tested] at finished
      by_cases zero : value = 0
      · rw [if_pos zero] at finished
        cases finished
        exact rfl
      · rw [if_neg zero] at finished
        cases ran : body between with
        | error stop final =>
          rw [ran] at finished
          cases finished
        | ok ended final =>
          rw [ran] at finished
          cases ended with
          | normal => exact inductionHypothesis final flow after finished
          | returned result =>
            cases finished
            exact round between _ _ ran

variable (linkage : Linkage σ)

mutual

/-- A statement ends as its returns say. -/
theorem execute_finishing : ∀ statement : Statement,
    Finishing (Flow.EndsLike statement.alwaysReturns statement.returned)
      (execute linkage statement)
  | .evaluate value => .andThen fun _ => .pure rfl
  | .store slot value => .andThen fun _ => .andThen fun _ => .pure rfl
  | .choose condition whenTrue whenFalse => by
    simp only [execute]
    refine .andThen fun value => ?_
    by_cases zero : value = 0
    · rw [if_pos zero]
      refine (executeAll_finishing whenFalse).mono fun flow ends => ?_
      refine ends.mono (fun mayFallOff => ?_) (List.subset_append_right _ _)
      rw [Statement.alwaysReturns, mayFallOff, Bool.and_false]
    · rw [if_neg zero]
      refine (executeAll_finishing whenTrue).mono fun flow ends => ?_
      refine ends.mono (fun mayFallOff => ?_) (List.subset_append_left _ _)
      rw [Statement.alwaysReturns, mayFallOff, Bool.false_and]
  | .loop condition body => repeatWhile_finishing (executeAll_finishing body) linkage.rounds
  | .leave none => .pure ⟨none, List.mem_singleton_self _, rfl⟩
  | .leave (some value) => .andThen fun _ => .pure ⟨some value, List.mem_singleton_self _, rfl⟩

theorem executeAll_finishing : ∀ statements : List Statement,
    Finishing (Flow.EndsLike (Statement.someAlwaysReturns statements)
      (Statement.listReturned statements)) (executeAll linkage statements)
  | [] => .pure rfl
  | head :: tail => by
    simp only [executeAll]
    refine (execute_finishing head).bind fun flow ends => ?_
    cases flow with
    | returned value =>
      obtain ⟨given, member, same⟩ := ends
      exact .pure ⟨given, List.mem_append_left _ member, same⟩
    | normal =>
      have headMay : head.alwaysReturns = false := ends
      refine (executeAll_finishing tail).mono fun flow tailEnds => ?_
      refine tailEnds.mono (fun tailMay => ?_) (List.subset_append_right _ _)
      rw [Statement.someAlwaysReturns, headMay, tailMay, Bool.or_false]

end

/-- Code that always returns, and never without a value, gives a value back. -/
theorem exists_returned {function : Code.Function}
    (always : Statement.someAlwaysReturns function.body = true)
    (given : ∀ value ∈ Statement.listReturned function.body, value.isSome) :
    Finishing (fun flow => ∃ value, flow = .returned (some value))
      (executeAll linkage function.body) := by
  refine (executeAll_finishing linkage function.body).mono fun flow ends => ?_
  cases flow with
  | normal =>
    rw [show Statement.someAlwaysReturns function.body = false from ends] at always
    cases always
  | returned value =>
    obtain ⟨source, member, same⟩ := ends
    rw [given source member] at same
    obtain ⟨number, rfl⟩ := Option.isSome_iff_exists.mp same
    exact ⟨number, rfl⟩

end

end Machine

/-! ## Return statements -/

namespace Analysis

open Code.Statement (forall_mem_listReturned)
open Syntax (Expression Statement TypeName Parameter Item)

section

variable {table : DeclarationTable}

mutual

/-- Where an integer is to be returned, every accepted return statement gives a value. -/
theorem isSome_returned_lowerStatement :
    ∀ (statement : Statement) (scope : Scope),
      (lowerStatement table scope statement).Accepted →
      (∀ kind ∈ (lowerStatement table scope statement).value.2.returns, kind = .int) →
      ∀ code ∈ (lowerStatement table scope statement).value.1,
        ∀ value ∈ code.returned, value.isSome
  | .declare type name initial span, scope => by
    intro _ _
    simp only [lowerStatement, Checked.value_bind, Checked.value_pure, Meaning.lowerLocal_value]
    exact List.forall_mem_singleton.mpr fun _ absent => absurd absent List.not_mem_nil
  | .evaluate value, scope => fun _ _ =>
    List.forall_mem_singleton.mpr fun _ absent => absurd absent List.not_mem_nil
  | .choose condition whenTrue whenFalse, scope => by
    intro accepted decides
    simp only [lowerStatement, Checked.accepted_bind, Checked.value_bind, Checked.value_pure]
      at accepted decides ⊢
    obtain ⟨-, trueAccepted, falseAccepted, -⟩ := accepted
    have falseDecides := decides_lowerBlock table whenFalse (Scope.enter
      ((lowerBlock table scope.enter whenTrue).value.2.leaveTo scope))
    have whenTrueGives := isSome_returned_lowerBlock whenTrue scope.enter trueAccepted
      fun kind decided => decides kind (falseDecides kind decided)
    have whenFalseGives := isSome_returned_lowerBlock whenFalse _ falseAccepted decides
    exact List.forall_mem_singleton.mpr (List.forall_mem_append.mpr
      ⟨forall_mem_listReturned whenTrueGives, forall_mem_listReturned whenFalseGives⟩)
  | .loop condition body, scope => by
    intro accepted decides
    simp only [lowerStatement, Checked.accepted_bind, Checked.value_bind, Checked.value_pure]
      at accepted decides ⊢
    have bodyGives := isSome_returned_lowerBlock body scope.enter accepted.2.1 decides
    exact List.forall_mem_singleton.mpr (forall_mem_listReturned bodyGives)
  | .leave value span, scope => by
    intro accepted decides
    simp only [lowerStatement, Checked.accepted_bind, Checked.value_bind, Checked.value_pure,
      Meaning.lowerReturn_value] at accepted decides ⊢
    refine List.forall_mem_singleton.mpr (List.forall_mem_singleton.mpr ?_)
    cases value with
    | none => exact nomatch decides .void (returns_of_accepted accepted.1)
    | some value => rfl
  | .block body, scope => by
    intro accepted decides
    simp only [lowerStatement, Checked.accepted_bind, Checked.value_bind, Checked.value_pure]
      at accepted decides ⊢
    exact isSome_returned_lowerBlock body scope.enter accepted.1 decides
  | .empty, scope => fun _ _ code absent => absurd absent List.not_mem_nil

theorem isSome_returned_lowerBlock :
    ∀ (statements : List Statement) (scope : Scope),
      (lowerBlock table scope statements).Accepted →
      (∀ kind ∈ (lowerBlock table scope statements).value.2.returns, kind = .int) →
      ∀ code ∈ (lowerBlock table scope statements).value.1,
        ∀ value ∈ code.returned, value.isSome
  | [], scope => fun _ _ code absent => absurd absent List.not_mem_nil
  | head :: tail, scope => by
    intro accepted decides
    simp only [lowerBlock, Checked.accepted_bind, Checked.value_bind, Checked.value_pure]
      at accepted decides ⊢
    have tailDecides := decides_lowerBlock table tail (lowerStatement table scope head).value.2
    have headGives := isSome_returned_lowerStatement head scope accepted.1
      fun kind decided => decides kind (tailDecides kind decided)
    have tailGives := isSome_returned_lowerBlock tail _ accepted.2.1 decides
    exact List.forall_mem_append.mpr ⟨headGives, tailGives⟩

end

/-- A body that always returns, and was accepted to return an integer, is lowered to code that
always returns, and never without a value. -/
theorem Lowers.returns {returns : TypeName} {name : String} {parameters : List Parameter}
    {body : List Statement} {function : Code.Function}
    (lowers : Lowers table returns name parameters body function)
    (isInt : function.returnsValue = true) (always : someAlwaysReturns body = true) :
    Code.Statement.someAlwaysReturns function.body = true ∧
      ∀ value ∈ Code.Statement.listReturned function.body, value.isSome := by
  have accepted := lowers.accepted
  rw [lowers.returnsValue, decide_eq_true_eq] at isInt
  rw [lowers.code]
  simp only [lowerBody, Checked.accepted_bind, Checked.value_bind] at accepted isInt ⊢
  refine ⟨(someAlwaysReturns_lowerBlock table body _).trans always, forall_mem_listReturned ?_⟩
  refine isSome_returned_lowerBlock body _ accepted.2 fun kind decided => ?_
  rw [Option.mem_def.mp decided] at isInt
  exact isInt

end

end Analysis

/-! ## Functions -/

/-- Whenever the function comes to an end, it is by giving back a value, and that value is what
its caller gets. -/
structure Code.Function.GivesValues (function : Code.Function) : Prop where
  ends : ∀ {σ : Type} (linkage : Machine.Linkage σ) (activation : Machine.Activation σ)
    (flow : Machine.Flow) (after : Machine.Activation σ),
    Machine.executeAll linkage function.body activation = .ok flow after →
      ∃ value, flow = .returned (some value)
  gives : ∀ {σ : Type} (linkage : Machine.Linkage σ) (arguments : List Int64)
    (state : Machine.State σ) (result : Value) (after : Machine.State σ),
    Machine.activate linkage function arguments state = .ok result after →
      ∃ value frame,
        Machine.executeAll linkage function.body
          ⟨Machine.callFrame function arguments, state⟩ =
            .ok (.returned (some value)) ⟨frame, after⟩ ∧
        result = .int value

namespace Analysis

open Syntax (Expression Statement TypeName Parameter Item)

theorem Lowers.givesValues {table : DeclarationTable} {returns : TypeName} {name : String}
    {parameters : List Parameter} {body : List Statement} {function : Code.Function}
    (lowers : Lowers table returns name parameters body function)
    (isInt : function.returnsValue = true) (always : someAlwaysReturns body = true) :
    function.GivesValues := by
  obtain ⟨codeAlways, given⟩ := lowers.returns isInt always
  refine ⟨fun linkage => Machine.exists_returned linkage codeAlways given, ?_⟩
  intro σ linkage arguments state result after finished
  have ended := Machine.exists_returned linkage codeAlways given
    ⟨Machine.callFrame function arguments, state⟩
  replace finished : EStateM.bind (Machine.insideFrame _ _) _ state = .ok result after := finished
  unfold EStateM.bind Machine.insideFrame at finished
  cases ran : Machine.executeAll linkage function.body
      ⟨Machine.callFrame function arguments, state⟩ with
  | error stop final =>
    rw [ran] at finished
    cases finished
  | ok flow final =>
    obtain ⟨value, rfl⟩ := ended flow final ran
    simp only [ran, Machine.returnedValue, isInt, if_true] at finished
    cases finished
    exact ⟨value, final.frame, rfl, rfl⟩

/-- A function that is accepted, returns an integer, and is not reported to miss a return always
gives back a value when its code comes to an end. It never falls off the end of its body and never
returns without a value, whatever its frame, the variables and the host are, so its caller never
sees the zero that stands for a missing value. -/
theorem unreported_functions_give_values {table : DeclarationTable} (owner : TransactionId)
    (before after : List Item) {returns : TypeName} {name : String} {parameters : List Parameter}
    {body : List Statement} {isExternal : Bool} {span : Span}
    (accepted : ∀ report ∈ itemReports owner (analyze before table owner)
      (.function returns name parameters (some body) isExternal span), report.isError = false) :
    ∃ function later,
      (analyze (before ++ .function returns name parameters (some body) isExternal span :: after)
          table owner).unit.functions =
        (analyze before table owner).unit.functions ++ function :: later ∧
      function.name = name ∧
      (function.returnsValue = true →
        (∀ report ∈ itemReports owner (analyze before table owner)
          (.function returns name parameters (some body) isExternal span),
          report.code ≠ .missingReturn) →
        function.GivesValues) := by
  obtain ⟨kind, function, lowers, functions, reported⟩ := checkItem_lowers accepted
  obtain ⟨later, grown⟩ := foldl_checkItem_functions owner after
    (checkItem owner (analyze before table owner)
      (.function returns name parameters (some body) isExternal span))
  refine ⟨function, later, ?_, lowers.sameName, fun isInt unreported => ?_⟩
  · rw [functions, List.append_assoc] at grown
    rw [analyze, List.foldl_append, List.foldl_cons]
    exact grown
  · refine lowers.givesValues isInt ?_
    by_contra mayFallOff
    rw [isInt, Bool.eq_false_iff.mpr mayFallOff] at reported
    exact unreported _ (reported (List.mem_singleton_self _)) rfl

/-- The body of a function with a loop, a block and a choice both sides of which return:
`while (x) { x = x - 1; if (x == 3) return x; } { if (x) return 1; else return 2; }`. -/
private def choosingBody : List Statement :=
  let x : Expression := .name "x" .nowhere
  [ .loop x [
      .evaluate (.assign x
        (.binary (.strict .subtract) x (.integer 1 .nowhere) .nowhere) .nowhere),
      .choose (.binary (.strict .equal) x (.integer 3 .nowhere) .nowhere)
        [.leave (some x) .nowhere] []],
    .block [
      .choose x [.leave (some (.integer 1 .nowhere)) .nowhere]
        [.leave (some (.integer 2 .nowhere)) .nowhere]] ]

/-- Nothing is reported about it, although its kind is deduced. -/
theorem choosingBody_gives_values :
    let item : Item := .function .auto "choose" [⟨.int, "x", .nowhere⟩] (some choosingBody) false
      .nowhere
    (∀ report ∈ itemReports ⟨0⟩ (analyze [] .empty ⟨0⟩) item, report.isError = false) ∧
      (∀ report ∈ itemReports ⟨0⟩ (analyze [] .empty ⟨0⟩) item, report.code ≠ .missingReturn) ∧
      ∃ function, (analyze [item] .empty ⟨0⟩).unit.functions = [function] ∧
        function.returnsValue = true ∧ function.GivesValues := by
  intro item
  have accepted : ∀ report ∈ itemReports ⟨0⟩ (analyze [] .empty ⟨0⟩) item,
      report.isError = false := by
    decide +kernel
  have unreported : ∀ report ∈ itemReports ⟨0⟩ (analyze [] .empty ⟨0⟩) item,
      report.code ≠ .missingReturn := by
    decide +kernel
  obtain ⟨function, later, functions, -, gives⟩ :=
    unreported_functions_give_values ⟨0⟩ [] [] accepted
  have only : (analyze [item] .empty ⟨0⟩).unit.functions.length = 1 := by decide +kernel
  have isInt : ∀ other ∈ (analyze [item] .empty ⟨0⟩).unit.functions,
      other.returnsValue = true := by
    decide +kernel
  replace functions : (analyze [item] .empty ⟨0⟩).unit.functions = function :: later := functions
  rw [functions] at only isInt
  obtain rfl : later = [] := List.eq_nil_of_length_eq_zero (Nat.succ.inj only)
  have returnsInt := isInt function List.mem_cons_self
  exact ⟨accepted, unreported, function, functions, returnsInt, gives returnsInt unreported⟩

end Analysis

end IncrementalC
