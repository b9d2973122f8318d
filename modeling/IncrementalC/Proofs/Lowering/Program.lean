import IncrementalC.Proofs.Lowering.Function

/-!
Contract: the functions of an analyzed program mean what their source means.

Owns: when code means its source, and that this holds of every function definition
that is accepted, whatever stands around it.

Does not own: linking the functions to each other.
-/

namespace IncrementalC

open Analysis (Checked Problem lowerBody)
open Machine (Run State Flow)
open Syntax (Expression Statement Parameter Item TypeName)

/-! ## Meaning -/

/-- A function ends as its source does. Loops are given a number of rounds; every
number that is large enough gives the same end. -/
structure Meaning.Means {σ : Type} (environment : Meaning.Environment σ)
    (parameters : List Parameter) (body : List Statement) (function : Code.Function) : Prop where
  ends : ∀ arguments state result, Meaning.Ended result →
    Meaning.Yields environment parameters body arguments state result →
    ∃ enough, ∀ rounds ≥ enough,
      Machine.insideFrame (Machine.callFrame function arguments)
        (Machine.executeAll (environment.linkage rounds) function.body) state = result
  from_source : ∀ arguments state result, Meaning.Ended result → ∀ rounds,
    Machine.insideFrame (Machine.callFrame function arguments)
      (Machine.executeAll (environment.linkage rounds) function.body) state = result →
    Meaning.Yields environment parameters body arguments state result

namespace Meaning

/-- Lowering an accepted body keeps its meaning. -/
theorem means_of_accepted {σ : Type} {environment : Environment σ} {table : DeclarationTable}
    {stated : Option ReturnKind} {parameters : List Parameter} {body : List Statement}
    {function : Code.Function}
    (known : ∀ name, environment.declares name = (table.lookup name).isSome)
    (accepted : (lowerBody table stated parameters body).Accepted)
    (count : function.parameters = parameters.length)
    (frameSize : function.frameSize = (lowerBody table stated parameters body).value.2.nextSlot)
    (code : function.body = (lowerBody table stated parameters body).value.1) :
    Means environment parameters body function where
  ends arguments state result ended yields := by
    obtain ⟨enough, run⟩ := (yields_iff known accepted count frameSize code ended).mp yields
    refine ⟨enough, fun rounds le => ?_⟩
    have finished : Ended (Machine.executeAll (environment.linkage enough) function.body
        ⟨Machine.callFrame function arguments, state⟩) := by
      intro after cut
      rw [insideFrame_eq, cut] at run
      exact ended _ run.symm
    rw [insideFrame_eq] at run ⊢
    rw [executeAll_mono le _ _ finished]
    exact run
  from_source arguments state result ended rounds run :=
    (yields_iff known accepted count frameSize code ended).mpr ⟨rounds, run⟩

end Meaning

namespace Analysis

/-! ## Items -/

variable {owner : TransactionId}

theorem checkFunction_functions (analysis : Analysis) (type : TypeName) (name : String)
    (parameters : List Parameter) (body : Option (List Statement)) (span : Span) :
    ∃ more, (analysis.checkFunction owner type name parameters body span).unit.functions =
      analysis.unit.functions ++ more := by
  unfold checkFunction
  split
  · exact ⟨[], (List.append_nil _).symm⟩
  · dsimp only
    split
    · exact ⟨[], (List.append_nil _).symm⟩
    · cases body with
      | none => exact ⟨[], (List.append_nil _).symm⟩
      | some body => exact ⟨_, rfl⟩

theorem checkVariable_functions (analysis : Analysis) (type : TypeName) (name : String)
    (initial : Option Expression) (span : Span) :
    (analysis.checkVariable owner type name initial span).unit.functions =
      analysis.unit.functions := by
  unfold checkVariable
  cases type with
  | void => rfl
  | auto => rfl
  | int =>
    dsimp only
    split <;> rfl

theorem checkItem_functions (owner : TransactionId) (analysis : Analysis) (item : Item) :
    ∃ more, (checkItem owner analysis item).unit.functions = analysis.unit.functions ++ more := by
  cases item with
  | «variable» type name initial span =>
    refine ⟨[], ?_⟩
    rw [List.append_nil]
    exact checkVariable_functions ..
  | function returns name parameters body isExternal span => exact checkFunction_functions ..

/-- An analysis keeps the functions it has. -/
theorem foldl_checkItem_functions (owner : TransactionId) (items : List Item)
    (analysis : Analysis) :
    ∃ more, (items.foldl (checkItem owner) analysis).unit.functions =
      analysis.unit.functions ++ more := by
  induction items generalizing analysis with
  | nil => exact ⟨[], (List.append_nil _).symm⟩
  | cons head tail inductionHypothesis =>
    obtain ⟨first, headFunctions⟩ := checkItem_functions owner analysis head
    obtain ⟨second, tailFunctions⟩ := inductionHypothesis (checkItem owner analysis head)
    refine ⟨first ++ second, ?_⟩
    rw [List.foldl_cons, tailFunctions, headFunctions, List.append_assoc]

/-- What checking one more item reports. -/
def itemReports (owner : TransactionId) (analysis : Analysis) (item : Item) : List Diagnostic :=
  (checkItem owner analysis item).diagnostics.drop analysis.diagnostics.length

/-- The function is what becomes of a definition whose body is lowered against the table. -/
structure Lowers (table : DeclarationTable) (returns : TypeName) (name : String)
    (parameters : List Parameter) (body : List Statement) (function : Code.Function) : Prop where
  sameName : function.name = name
  count : function.parameters = parameters.length
  accepted : (lowerBody table (statedReturn returns) parameters body).Accepted
  frameSize : function.frameSize =
    (lowerBody table (statedReturn returns) parameters body).value.2.nextSlot
  returnsValue : function.returnsValue =
    decide ((lowerBody table (statedReturn returns) parameters body).value.2.returns.getD .void =
      .int)
  code : function.body = (lowerBody table (statedReturn returns) parameters body).value.1

/-- An accepted definition adds the lowered body. The function itself is declared by then. It is
reported if the function has a value to return and may fall off the end of its body. -/
theorem checkItem_lowers {analysis : Analysis} {returns : TypeName} {name : String}
    {parameters : List Parameter} {body : List Statement} {isExternal : Bool} {span : Span}
    (accepted : ∀ report ∈ itemReports owner analysis
      (.function returns name parameters (some body) isExternal span), report.isError = false) :
    ∃ kind function,
      Lowers (analysis.declare owner name kind span).2.table returns name parameters body
        function ∧
      (checkItem owner analysis
          (.function returns name parameters (some body) isExternal span)).unit.functions =
        analysis.unit.functions ++ [function] ∧
      (Checked.reportIf (function.returnsValue && !someAlwaysReturns body) (.missingReturn name)
          span).reports ⊆
        itemReports owner analysis
          (.function returns name parameters (some body) isExternal span) := by
  have hasBody : ¬(returns = TypeName.auto ∧ (some body).isNone) := by simp
  simp only [itemReports, checkItem, checkFunction, if_neg hasBody] at accepted ⊢
  cases continued : earlierFunction analysis.table name parameters.length (statedReturn returns)
      (some body).isSome with
  | error problem =>
    simp only [continued, Analysis.report, Analysis.addReports, List.drop_left] at accepted
    have error : (problem.reportAt span).isError = true :=
      decide_eq_true (severity_earlierFunction continued)
    rw [accepted _ (List.mem_singleton_self _)] at error
    cases error
  | ok earlier =>
    simp only [continued, defineFunction, Analysis.addReports, Analysis.addFunction,
      Analysis.declare, List.drop_left] at accepted ⊢
    refine ⟨_, _, ⟨rfl, rfl, ?_, rfl, rfl, rfl⟩, rfl, List.subset_append_right _ _⟩
    intro report member
    exact accepted report (List.mem_append_left _ (List.mem_append_left _ member))

/-- An accepted definition adds the lowered body. The function itself is declared by
then. -/
theorem checkItem_definition {analysis : Analysis} (wellFormed : analysis.table.WellFormed)
    {returns : TypeName} {name : String} {parameters : List Parameter} {body : List Statement}
    {isExternal : Bool} {span : Span}
    (accepted : ∀ report ∈ itemReports owner analysis
      (.function returns name parameters (some body) isExternal span), report.isError = false) :
    ∃ table function,
      (∀ other, (table.lookup other).isSome =
        (decide (other = name) || (analysis.table.lookup other).isSome)) ∧
      (checkItem owner analysis
          (.function returns name parameters (some body) isExternal span)).unit.functions =
        analysis.unit.functions ++ [function] ∧
      function.name = name ∧ function.parameters = parameters.length ∧
      (lowerBody table (statedReturn returns) parameters body).Accepted ∧
      function.frameSize =
        (lowerBody table (statedReturn returns) parameters body).value.2.nextSlot ∧
      function.body = (lowerBody table (statedReturn returns) parameters body).value.1 := by
  obtain ⟨kind, function, lowers, functions, -⟩ := checkItem_lowers accepted
  exact ⟨_, function, wellFormed.isSome_lookup_declare name kind owner span, functions,
    lowers.sameName, lowers.count, lowers.accepted, lowers.frameSize, lowers.code⟩

end Analysis

/-! ## Programs -/

namespace Meaning

/-- A function definition that is accepted means its source, in every environment that
declares the names declared so far, the function's own among them. -/
theorem accepted_function_means_its_source {table : DeclarationTable}
    (wellFormed : table.WellFormed) (owner : TransactionId) (before after : List Item)
    {returns : TypeName} {name : String} {parameters : List Parameter} {body : List Statement}
    {isExternal : Bool} {span : Span}
    (accepted : ∀ report ∈ Analysis.itemReports owner (analyze before table owner)
      (.function returns name parameters (some body) isExternal span), report.isError = false) :
    ∃ function later,
      (analyze (before ++ .function returns name parameters (some body) isExternal span :: after)
          table owner).unit.functions =
        (analyze before table owner).unit.functions ++ function :: later ∧
      function.name = name ∧
      ∀ (σ : Type) (environment : Environment σ),
        (∀ other, environment.declares other =
          (decide (other = name) || ((analyze before table owner).table.lookup other).isSome)) →
        Means environment parameters body function := by
  have stillWellFormed := (Analysis.analyze_extends before table owner).wellFormed wellFormed
  obtain ⟨lowering, function, names, functions, sameName, count, bodyAccepted, frameSize, code⟩ :=
    Analysis.checkItem_definition stillWellFormed accepted
  obtain ⟨later, grown⟩ := Analysis.foldl_checkItem_functions owner after
    (Analysis.checkItem owner (analyze before table owner)
      (.function returns name parameters (some body) isExternal span))
  refine ⟨function, later, ?_, sameName, ?_⟩
  · rw [functions, List.append_assoc] at grown
    rw [analyze, List.foldl_append, List.foldl_cons]
    exact grown
  · intro σ environment declared
    refine means_of_accepted ?_ bodyAccepted count frameSize code
    intro other
    rw [declared, names]

/-- The body of `int sum(int x)`, in which an inner `x` hides the parameter:
`int total; while (x) { { int x = 5; total = total + x; } x = x - 1; } return total;` -/
private def sumBody : List Statement :=
  let x : Expression := .name "x" .nowhere
  let total : Expression := .name "total" .nowhere
  [ .declare .int "total" none .nowhere,
    .loop x [
      .block [
        .declare .int "x" (some (.integer 5 .nowhere)) .nowhere,
        .evaluate (.assign total (.binary (.strict .add) total x .nowhere) .nowhere)],
      .evaluate (.assign x
        (.binary (.strict .subtract) x (.integer 1 .nowhere) .nowhere) .nowhere)],
    .leave (some total) .nowhere ]

/-- The inner variable leaves the parameter alone: `sum(2)` takes two rounds. -/
theorem sumBody_yields :
    (∀ report ∈ Analysis.itemReports ⟨0⟩ (analyze [] .empty ⟨0⟩)
      (.function .int "sum" [⟨.int, "x", .nowhere⟩] (some sumBody) false .nowhere),
      report.isError = false) ∧
    Yields ⟨fun other => decide (other = "sum"), fun _ _ => pure 0, fun _ _ => pure ()⟩
      [⟨.int, "x", .nowhere⟩] sumBody [2] (⟨[], ()⟩ : State Unit)
      (.ok (.returned (some 10)) ⟨[], ()⟩) := by
  let item : Item := .function .int "sum" [⟨.int, "x", .nowhere⟩] (some sumBody) false .nowhere
  have accepted : ∀ report ∈ Analysis.itemReports ⟨0⟩ (analyze [] .empty ⟨0⟩) item,
      report.isError = false := by
    decide +kernel
  obtain ⟨function, later, functions, -, means⟩ :=
    accepted_function_means_its_source DeclarationTable.wellFormed_empty ⟨0⟩ [] [] accepted
  have meaning := means Unit
    ⟨fun other => decide (other = "sum"), fun _ _ => pure 0, fun _ _ => pure ()⟩
    fun _ => (Bool.or_false _).symm
  have same : (analyze [item] .empty ⟨0⟩).unit.functions.head? = some function := by
    simp only [List.nil_append] at functions
    rw [functions]
    rfl
  refine ⟨accepted, meaning.from_source [2] _ _ (ended_ok _ _) 3 ?_⟩
  obtain rfl : _ = function := Option.some.inj same
  rfl

end Meaning

end IncrementalC
