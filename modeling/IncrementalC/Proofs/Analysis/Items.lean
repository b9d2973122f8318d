import IncrementalC.Proofs.Analysis.Extension

/-!
Contract: what an item that is no error declares.

An item that conflicts with what is declared, or that declares what no item may, is reported as an
error. Any other item declares its name by one record, and leaves code unless it is a prototype.

Owns:
- the record and the code of an accepted item;
- that reports stay, and what an analysis without errors keeps.

Does not own: what the records of one name agree on.
-/

namespace IncrementalC.Analysis

open Syntax (Expression Statement Item Parameter TypeName)

variable {owner : TransactionId}

/-! ## Definitions -/

theorem statedReturn_of_ne_auto {type : TypeName} (stated : type ≠ .auto) :
    statedReturn type = some ((statedReturn type).getD .int) := by
  cases type with
  | int => rfl
  | void => rfl
  | auto => exact absurd rfl stated

/-- A definition is one record. It returns what it states or, unless an error is reported, what
an earlier declaration says. -/
theorem defineFunction_records (analysis : Analysis) (owner : TransactionId)
    (earlier : Option EarlierFunction) (type : TypeName) (name : String)
    (parameters : List Parameter) (body : List Statement) (span : Span) :
    let declared := analysis.declare owner name
      (.function parameters.length ((statedReturn type).getD .int) (some owner)) span
    let after := declared.2.defineFunction declared.1 earlier owner type name parameters body span
    ∃ returns, after.table.records = analysis.table.records ++
        [⟨⟨analysis.table.records.length⟩, name, .function parameters.length returns (some owner),
          owner, .pending, span⟩] ∧
      (∀ kind ∈ statedReturn type, returns = kind) ∧
      (statedReturn type = none → after.hasErrors = false →
        ∀ known ∈ earlier, known.returns = returns) := by
  intro declared after
  cases deduced : decide (type = TypeName.auto) with
  | false =>
    have states := statedReturn_of_ne_auto (of_decide_eq_false deduced)
    refine ⟨(statedReturn type).getD .int, ?_, ?_, ?_⟩
    · simp only [after, defineFunction, deduced, addFunction, addReports, Bool.false_eq_true,
        if_false]
      rfl
    · intro kind stated
      rw [states] at stated
      exact Option.some.inj stated
    · intro unstated
      rw [states] at unstated
      cases unstated
  | true =>
    obtain rfl := of_decide_eq_true deduced
    let returns := (lowerBody declared.2.table none parameters body).value.2.returns.getD .void
    refine ⟨returns, ?_, (fun _ absent => by cases absent), ?_⟩
    · have settled := DeclarationTable.refine_declare analysis.table name
        (.function parameters.length .int (some owner))
        (.function parameters.length returns (some owner)) owner span
      exact congrArg DeclarationTable.records settled
    · intro _ errorless known continued
      by_contra differs
      have conflict : decide (TypeName.auto = TypeName.auto) &&
          decide (known.returns ≠ returns) := by simp [differs]
      have reported : (Problem.conflictingTypes name).reportAt span ∈
          (Checked.reportIf (decide (TypeName.auto = TypeName.auto) &&
            decide (known.returns ≠ returns)) (.conflictingTypes name) span).reports := by
        rw [conflict]
        exact List.mem_singleton_self _
      obtain rfl := Option.mem_def.mp continued
      have member : (Problem.conflictingTypes name).reportAt span ∈ after.diagnostics :=
        List.mem_append_right _ (List.mem_append_left _ (List.mem_append_right _ reported))
      have error := List.any_eq_false.mp errorless _ member
      exact error rfl

/-! ## Items -/

/-- The record and the unit of code that an accepted item leaves. -/
inductive Declares (owner : TransactionId) (analysis : Analysis) :
    Item → DeclarationRecord → CodeUnit → Prop where
  | global {name : String} {initial : Option Expression} {span : Span} {constant : Option Int64}
      {initializers : List Code.Initializer} (unknown : analysis.table.lookup name = none) :
      Declares owner analysis (.variable .int name initial span)
        ⟨⟨analysis.table.records.length⟩, name, .variable, owner, .pending, span⟩
        { analysis.unit with
          globals := analysis.unit.globals ++ [⟨name, ⟨analysis.table.records.length⟩, constant⟩],
          initializers := analysis.unit.initializers ++ initializers }
  | definition {type : TypeName} {name : String} {parameters : List Parameter}
      {body : List Statement} {isExternal : Bool} {span : Span} {earlier : Option EarlierFunction}
      {returns : ReturnKind} {function : Code.Function}
      (continued : earlierFunction analysis.table name parameters.length (statedReturn type) true =
        .ok earlier)
      (states : ∀ kind ∈ statedReturn type, returns = kind)
      (deduces : statedReturn type = none → ∀ known ∈ earlier, known.returns = returns)
      (named : function.name = name) :
      Declares owner analysis (.function type name parameters (some body) isExternal span)
        ⟨⟨analysis.table.records.length⟩, name, .function parameters.length returns (some owner),
          owner, .pending, span⟩
        { analysis.unit with functions := analysis.unit.functions ++ [function] }
  | prototype {type : TypeName} {name : String} {parameters : List Parameter} {isExternal : Bool}
      {span : Span} {earlier : Option EarlierFunction} {returns : ReturnKind}
      (continued : earlierFunction analysis.table name parameters.length (statedReturn type) false =
        .ok earlier)
      (states : statedReturn type = some returns) :
      Declares owner analysis (.function type name parameters none isExternal span)
        ⟨⟨analysis.table.records.length⟩, name,
          .function parameters.length returns (earlier.bind EarlierFunction.definition), owner,
          .pending, span⟩
        analysis.unit

/-- The item declares by the record, and leaves code. -/
structure Accepts (owner : TransactionId) (analysis : Analysis) (item : Item) (after : Analysis)
    (record : DeclarationRecord) : Prop where
  records : after.table.records = analysis.table.records ++ [record]
  declarations : after.declarations = analysis.declarations ++ [record.id]
  declares : Declares owner analysis item record after.unit

/-- A problem that is no warning is an error. -/
theorem hasErrors_report (analysis : Analysis) {problem : Problem}
    (severe : problem.code.severity = .error) (span : Span) :
    (analysis.report problem span).hasErrors = true := by
  have error : (problem.reportAt span).isError = true := decide_eq_true severe
  simp [hasErrors, report, addReports, error]

theorem checkVariable_accepts {analysis : Analysis} {type : TypeName} {name : String}
    {initial : Option Expression} {span : Span}
    (errorless : (analysis.checkVariable owner type name initial span).hasErrors = false) :
    ∃ record, Accepts owner analysis (.variable type name initial span)
      (analysis.checkVariable owner type name initial span) record := by
  unfold checkVariable at errorless ⊢
  cases type with
  | void => cases (hasErrors_report analysis rfl span).symm.trans errorless
  | auto => cases (hasErrors_report analysis rfl span).symm.trans errorless
  | int =>
    cases known : analysis.table.lookup name with
    | none => exact ⟨_, rfl, rfl, .global known⟩
    | some record =>
      simp only [known, Option.map_some] at errorless
      cases kind : record.kind with
      | «variable» =>
        rw [kind] at errorless
        cases (hasErrors_report analysis rfl span).symm.trans errorless
      | function =>
        rw [kind] at errorless
        cases (hasErrors_report analysis rfl span).symm.trans errorless

theorem checkFunction_accepts {analysis : Analysis} {type : TypeName} {name : String}
    {parameters : List Parameter} {body : Option (List Statement)} {span : Span}
    (isExternal : Bool)
    (errorless : (analysis.checkFunction owner type name parameters body span).hasErrors = false) :
    ∃ record, Accepts owner analysis (.function type name parameters body isExternal span)
      (analysis.checkFunction owner type name parameters body span) record := by
  unfold checkFunction at errorless ⊢
  split
  · next deduced =>
    rw [if_pos deduced] at errorless
    cases (hasErrors_report analysis rfl span).symm.trans errorless
  · next stated =>
    rw [if_neg stated] at errorless
    dsimp only at errorless ⊢
    split
    · next problem refused =>
      simp only [refused] at errorless
      have severe := severity_earlierFunction refused
      cases (hasErrors_report analysis severe span).symm.trans errorless
    · next earlier continued =>
      simp only [continued] at errorless
      cases body with
      | none =>
        have states : statedReturn type = some ((statedReturn type).getD .int) :=
          statedReturn_of_ne_auto fun deduced => stated ⟨deduced, rfl⟩
        exact ⟨_, rfl, rfl, .prototype continued states⟩
      | some body =>
        obtain ⟨returns, records, states, deduces⟩ :=
          defineFunction_records analysis owner earlier type name parameters body span
        exact ⟨_, records, rfl,
          .definition continued states (fun unstated => deduces unstated errorless) rfl⟩

/-- An item that is no error is accepted. -/
theorem checkItem_accepts {analysis : Analysis} {item : Item}
    (errorless : (checkItem owner analysis item).hasErrors = false) :
    ∃ record, Accepts owner analysis item (checkItem owner analysis item) record := by
  cases item with
  | «variable» type name initial span => exact checkVariable_accepts errorless
  | function returns name parameters body isExternal span =>
    exact checkFunction_accepts isExternal errorless

/-! ## Programs -/

theorem checkVariable_diagnostics (analysis : Analysis) (type : TypeName) (name : String)
    (initial : Option Expression) (span : Span) :
    ∃ more, (analysis.checkVariable owner type name initial span).diagnostics =
      analysis.diagnostics ++ more := by
  unfold checkVariable
  cases type with
  | void => exact ⟨_, rfl⟩
  | auto => exact ⟨_, rfl⟩
  | int =>
    dsimp only
    split <;> exact ⟨_, rfl⟩

theorem checkFunction_diagnostics (analysis : Analysis) (type : TypeName) (name : String)
    (parameters : List Parameter) (body : Option (List Statement)) (span : Span) :
    ∃ more, (analysis.checkFunction owner type name parameters body span).diagnostics =
      analysis.diagnostics ++ more := by
  unfold checkFunction
  split
  · exact ⟨_, rfl⟩
  · dsimp only
    split
    · exact ⟨_, rfl⟩
    · cases body with
      | none => exact ⟨[], (List.append_nil _).symm⟩
      | some body => exact ⟨_, rfl⟩

theorem checkItem_diagnostics (owner : TransactionId) (analysis : Analysis) (item : Item) :
    ∃ more, (checkItem owner analysis item).diagnostics = analysis.diagnostics ++ more := by
  cases item with
  | «variable» type name initial span => exact checkVariable_diagnostics ..
  | function returns name parameters body isExternal span => exact checkFunction_diagnostics ..

/-- Errors stay errors. -/
theorem hasErrors_foldl_checkItem (owner : TransactionId) (items : List Item)
    {analysis : Analysis} (failed : analysis.hasErrors = true) :
    (items.foldl (checkItem owner) analysis).hasErrors = true := by
  induction items generalizing analysis with
  | nil => exact failed
  | cons item rest inductionHypothesis =>
    apply inductionHypothesis
    obtain ⟨more, reports⟩ := checkItem_diagnostics owner analysis item
    unfold hasErrors at failed ⊢
    rw [reports, List.any_append, failed, Bool.true_or]

/-- In an analysis without errors the first item is no error. -/
theorem errorless_of_cons {item : Item} {rest : List Item} {analysis : Analysis}
    (errorless : ((item :: rest).foldl (checkItem owner) analysis).hasErrors = false) :
    (checkItem owner analysis item).hasErrors = false := by
  cases failed : (checkItem owner analysis item).hasErrors with
  | false => rfl
  | true => cases (hasErrors_foldl_checkItem owner rest failed).symm.trans errorless

/-- What every accepted item keeps, an analysis without errors keeps. -/
theorem foldl_checkItem_keeps {kept : Analysis → Prop} (items : List Item) {analysis : Analysis}
    (holds : kept analysis)
    (step : ∀ before, kept before → ∀ item ∈ items,
      (checkItem owner before item).hasErrors = false → kept (checkItem owner before item))
    (errorless : (items.foldl (checkItem owner) analysis).hasErrors = false) :
    kept (items.foldl (checkItem owner) analysis) := by
  induction items generalizing analysis with
  | nil => exact holds
  | cons item rest inductionHypothesis =>
    have fine := errorless_of_cons errorless
    exact inductionHypothesis (step analysis holds item List.mem_cons_self fine)
      (fun before keeps other member => step before keeps other (List.mem_cons_of_mem item member))
      errorless

theorem Declares.name {analysis : Analysis} {item : Item} {record : DeclarationRecord}
    {unit : CodeUnit} (declares : Declares owner analysis item record unit) :
    record.name = item.name := by
  cases declares <;> rfl

/-- An analysis without errors adds one record for each item, of its name. -/
theorem names_of_errorless (items : List Item) {analysis : Analysis}
    (errorless : (items.foldl (checkItem owner) analysis).hasErrors = false) :
    ∃ added, (items.foldl (checkItem owner) analysis).table.records =
        analysis.table.records ++ added ∧
      added.map DeclarationRecord.name = items.map Item.name := by
  induction items generalizing analysis with
  | nil => exact ⟨[], (List.append_nil _).symm, rfl⟩
  | cons item rest inductionHypothesis =>
    obtain ⟨record, accepts⟩ := checkItem_accepts (errorless_of_cons errorless)
    obtain ⟨added, records, names⟩ := inductionHypothesis errorless
    refine ⟨record :: added, ?_, congrArg₂ List.cons accepts.declares.name names⟩
    rw [List.foldl_cons, records, accepts.records, List.append_assoc]
    rfl

/-- An analysis without errors makes one declaration for each item. -/
theorem length_declarations (items : List Item) {analysis : Analysis}
    (errorless : (items.foldl (checkItem owner) analysis).hasErrors = false) :
    (items.foldl (checkItem owner) analysis).declarations.length =
      analysis.declarations.length + items.length := by
  induction items generalizing analysis with
  | nil => rfl
  | cons item rest inductionHypothesis =>
    obtain ⟨record, accepts⟩ := checkItem_accepts (errorless_of_cons errorless)
    rw [List.foldl_cons, inductionHypothesis errorless, accepts.declarations]
    simp only [List.length_append, List.length_cons, List.length_nil]
    omega

end IncrementalC.Analysis
