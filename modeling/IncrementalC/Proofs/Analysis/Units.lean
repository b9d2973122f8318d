import IncrementalC.Proofs.Analysis.Items
import IncrementalC.Proofs.Lowering.Frames
import IncrementalC.Proofs.Lowering.Typing
import Mathlib.Data.List.Induction

/-!
Contract: the unit of code of a program that is accepted.

An accepted item adds one record to the table and its code to the unit: a variable its global and,
unless its first value is a constant, an initializer; a definition its function; a prototype
nothing. The code is typed against the table it was lowered against, which for a function has the
function itself already.

Owns:
- what one accepted item emits, and the induction over the items of an accepted program;
- the correspondence of items and code, and that defined names are distinct.

Does not own: what a function is recorded to return in the end.
-/

namespace IncrementalC

open Code (HasKind WellTyped)
open Syntax (Expression Statement Item Parameter TypeName)

/-- What a function gives back, as its code says it. -/
def Code.Function.returns (function : Code.Function) : ReturnKind :=
  if function.returnsValue then .int else .void

theorem Code.Function.returns_of_decide {function : Code.Function} {kind : ReturnKind}
    (value : function.returnsValue = decide (kind = .int)) : function.returns = kind := by
  unfold Code.Function.returns
  rw [value]
  cases kind <;> rfl

/-- The name of a variable item. -/
def Syntax.Item.variable? : Item → Option String
  | .variable _ name _ _ => some name
  | .function _ _ _ _ _ _ => none

/-- The name of a function item with a body, and the number of its parameters. -/
def Syntax.Item.definition? : Item → Option (String × Nat)
  | .variable _ _ _ _ => none
  | .function _ name parameters body _ _ => body.map fun _ => (name, parameters.length)

/-- A new record hides the older ones of its name, and no other. -/
theorem DeclarationTable.WellFormed.lookup_append {table later : DeclarationTable}
    (wellFormed : table.WellFormed) (laterWellFormed : later.WellFormed)
    {record : DeclarationRecord} (records : later.records = table.records ++ [record])
    (live : record.isLive = true) (name : String) :
    later.lookup name = if record.name = name then some record else table.lookup name := by
  rw [laterWellFormed.lookup_eq, wellFormed.lookup_eq, records, liveNamed_append,
    List.getLast?_append]
  by_cases same : record.name = name
  · simp [liveNamed, same, live]
  · simp [liveNamed, same]

namespace Analysis

variable {owner : TransactionId}

/-! ## Accepted items -/

/-- The table against which the body of a function is lowered. The function is declared in it, and
counts as giving back an integer as long as nothing is known of what it gives back. -/
def bodyTable (table : DeclarationTable) (owner : TransactionId) (type : TypeName) (name : String)
    (parameters : List Parameter) (span : Span) : DeclarationTable :=
  (table.declare name (.function parameters.length ((statedReturn type).getD .int) (some owner))
    owner span).2

/-- The record that an accepted item adds to the table, and the unit that it leaves. -/
inductive Emits (owner : TransactionId) (before : Analysis) :
    Item → DeclarationRecord → CodeUnit → Prop where
  | constant {name : String} {initial : Option Expression} {span : Span} (value : Int64)
      (unknown : before.table.lookup name = none) :
      Emits owner before (.variable .int name initial span)
        ⟨⟨before.table.records.length⟩, name, .variable, owner, .pending, span⟩
        { before.unit with
          globals := before.unit.globals ++
            [⟨name, ⟨before.table.records.length⟩, some value⟩] }
  | computed {name : String} {initial : Expression} {span : Span} {value : Code.Expression}
      (unknown : before.table.lookup name = none) (typed : HasKind before.table value .int)
      (without : value.slots = []) :
      Emits owner before (.variable .int name (some initial) span)
        ⟨⟨before.table.records.length⟩, name, .variable, owner, .pending, span⟩
        { before.unit with
          globals := before.unit.globals ++ [⟨name, ⟨before.table.records.length⟩, none⟩],
          initializers := before.unit.initializers ++
            [⟨name, ⟨before.table.records.length⟩, value⟩] }
  | definition {type : TypeName} {parameters : List Parameter} {body : List Statement}
      {isExternal : Bool} {span : Span} {earlier : Option EarlierFunction}
      {function : Code.Function}
      (continued : earlierFunction before.table function.name parameters.length
        (statedReturn type) true = .ok earlier)
      (declared : function.declaration = ⟨before.table.records.length⟩)
      (count : function.parameters = parameters.length)
      (room : function.parameters ≤ function.frameSize)
      (inside : ∀ slot ∈ Code.Statement.listSlots function.body, slot < function.frameSize)
      (states : ∀ kind ∈ statedReturn type, function.returns = kind)
      (typed : ∀ statement ∈ function.body, WellTyped
        (bodyTable before.table owner type function.name parameters span) function.returns
        statement) :
      Emits owner before (.function type function.name parameters (some body) isExternal span)
        ⟨⟨before.table.records.length⟩, function.name,
          .function function.parameters function.returns (some owner), owner, .pending, span⟩
        { before.unit with functions := before.unit.functions ++ [function] }
  | prototype {type : TypeName} {name : String} {parameters : List Parameter} {isExternal : Bool}
      {span : Span} {earlier : Option EarlierFunction} {returns : ReturnKind}
      (continued : earlierFunction before.table name parameters.length (statedReturn type) false =
        .ok earlier)
      (states : statedReturn type = some returns) :
      Emits owner before (.function type name parameters none isExternal span)
        ⟨⟨before.table.records.length⟩, name,
          .function parameters.length returns (earlier.bind EarlierFunction.definition), owner,
          .pending, span⟩
        before.unit

/-- Reports of a part that stay in the analysis are no errors if it has none. -/
theorem accepted_of_errorless {α : Type} {analysis : Analysis} {checked : Checked α}
    (errorless : analysis.hasErrors = false)
    (stay : ∀ report ∈ checked.reports, report ∈ analysis.diagnostics) : checked.Accepted := by
  intro report member
  exact Bool.eq_false_iff.mpr (List.any_eq_false.mp errorless report (stay report member))

/-- A global with a first value that is typed is a constant or has an initializer. -/
theorem emits_addGlobal {analysis : Analysis} {name : String} {initial : Expression} {span : Span}
    {value : Code.Expression} (unknown : analysis.table.lookup name = none)
    (typed : HasKind analysis.table value .int) (without : value.slots = []) :
    Emits owner analysis (.variable .int name (some initial) span)
      ⟨⟨analysis.table.records.length⟩, name, .variable, owner, .pending, span⟩
      (analysis.addGlobal name ⟨analysis.table.records.length⟩ (some value)).unit := by
  have computed : Emits owner analysis (.variable .int name (some initial) span) _ _ :=
    .computed unknown typed without
  cases value with
  | integer constant =>
    simp only [addGlobal, List.append_nil]
    exact .constant constant unknown
  | _ => exact computed

theorem emits_declareVariable {analysis : Analysis} {name : String} {initial : Option Expression}
    {span : Span} (wellFormed : analysis.table.WellFormed)
    (unknown : analysis.table.lookup name = none)
    (errorless : (analysis.declareVariable owner name initial span).hasErrors = false) :
    Emits owner analysis (.variable .int name initial span)
      ⟨⟨analysis.table.records.length⟩, name, .variable, owner, .pending, span⟩
      (analysis.declareVariable owner name initial span).unit := by
  cases initial with
  | none =>
    simp only [declareVariable, addGlobal, Checked.value_pure, List.append_nil]
    exact .constant 0 unknown
  | some initial =>
    have accepted : (lowerInt analysis.table [] initial).Accepted := by
      apply accepted_of_errorless errorless
      intro report member
      exact List.mem_append_right _ (List.mem_append_left _ member)
    have typed := hasKind_lowerInt wellFormed accepted
    have inside : (lowerInt analysis.table [] initial).value.slots ⊆ Frames.slots [] :=
      slots_lowerInt initial
    have without := List.eq_nil_of_subset_nil inside
    exact emits_addGlobal unknown typed without

/-- An accepted variable is an integer, and nothing else has its name. -/
theorem unknown_of_checkVariable {analysis : Analysis} {type : TypeName} {name : String}
    {initial : Option Expression} {span : Span}
    (errorless : (analysis.checkVariable owner type name initial span).hasErrors = false) :
    type = .int ∧ analysis.table.lookup name = none := by
  obtain ⟨record, accepts⟩ := checkVariable_accepts errorless
  have declares := accepts.declares
  generalize (analysis.checkVariable owner type name initial span).unit = unit at declares
  cases declares with
  | global unknown => exact ⟨rfl, unknown⟩

theorem emits_checkVariable {analysis : Analysis} {type : TypeName} {name : String}
    {initial : Option Expression} {span : Span} (wellFormed : analysis.table.WellFormed)
    (errorless : (analysis.checkVariable owner type name initial span).hasErrors = false) :
    ∃ record, (analysis.checkVariable owner type name initial span).table.records =
        analysis.table.records ++ [record] ∧
      Emits owner analysis (.variable type name initial span) record
        (analysis.checkVariable owner type name initial span).unit := by
  obtain ⟨rfl, unknown⟩ := unknown_of_checkVariable errorless
  simp only [checkVariable, unknown, Option.map_none] at errorless ⊢
  exact ⟨_, rfl, emits_declareVariable wellFormed unknown errorless⟩

theorem nextSlot_bindParameters (table : DeclarationTable) (parameters : List Parameter)
    (scope : Scope) :
    (bindParameters table scope parameters).value.nextSlot =
      scope.nextSlot + parameters.length := by
  induction parameters generalizing scope with
  | nil => rfl
  | cons head tail inductionHypothesis =>
    have rest := inductionHypothesis (scope.bind head.name).2
    have next : (scope.bind head.name).2.nextSlot = scope.nextSlot + 1 := rfl
    rw [next] at rest
    rw [List.length_cons, Nat.add_comm tail.length, ← Nat.add_assoc]
    exact rest

/-- The parameters have slots in the frame of a body. -/
theorem parameters_le_lowerBody (table : DeclarationTable) (stated : Option ReturnKind)
    (parameters : List Parameter) (body : List Statement) :
    parameters.length ≤ (lowerBody table stated parameters body).value.2.nextSlot := by
  have bound := nextSlot_bindParameters table parameters (.ofFunction stated)
  rw [show (Scope.ofFunction stated).nextSlot = 0 from rfl, Nat.zero_add] at bound
  have grows := lowerBlock_grows table body
    (bindParameters table (.ofFunction stated) parameters).value.enter
  exact bound ▸ grows.nextSlot

/-- However a definition finds out what it returns, it is recorded once with that kind. -/
theorem defineFunction_table (analysis : Analysis) (earlier : Option EarlierFunction)
    (type : TypeName) (name : String) (parameters : List Parameter) (body : List Statement)
    (span : Span) :
    let declared := analysis.declare owner name
      (.function parameters.length ((statedReturn type).getD .int) (some owner)) span
    let lowered := lowerBody declared.2.table (statedReturn type) parameters body
    (declared.2.defineFunction declared.1 earlier owner type name parameters body span).table =
      (analysis.table.declare name
        (.function parameters.length (lowered.value.2.returns.getD .void) (some owner))
        owner span).2 := by
  intro declared lowered
  by_cases deduced : type = .auto
  · subst deduced
    exact DeclarationTable.refine_declare ..
  · have states := statedReturn_of_ne_auto deduced
    have decided : lowered.value.2.returns = some ((statedReturn type).getD .int) :=
      returns_lowerBody _ _ parameters body _ states
    rw [decided]
    simp only [defineFunction, addFunction, addReports, deduced, decide_false, Bool.false_eq_true,
      if_false]
    rfl

theorem emits_defineFunction {analysis : Analysis} {type : TypeName} {name : String}
    {parameters : List Parameter} {body : List Statement} {span : Span}
    {earlier : Option EarlierFunction} (isExternal : Bool) (wellFormed : analysis.table.WellFormed)
    (continued : earlierFunction analysis.table name parameters.length (statedReturn type) true =
      .ok earlier) :
    let declared := analysis.declare owner name
      (.function parameters.length ((statedReturn type).getD .int) (some owner)) span
    let after := declared.2.defineFunction declared.1 earlier owner type name parameters body span
    after.hasErrors = false →
    ∃ record, after.table.records = analysis.table.records ++ [record] ∧
      Emits owner analysis (.function type name parameters (some body) isExternal span) record
        after.unit := by
  intro declared after errorless
  let lowered := lowerBody declared.2.table (statedReturn type) parameters body
  have accepted : lowered.Accepted := by
    apply accepted_of_errorless errorless
    intro report member
    exact List.mem_append_right _ (List.mem_append_left _ (List.mem_append_left _ member))
  let returns := lowered.value.2.returns.getD .void
  let function : Code.Function :=
    { name, declaration := declared.1, parameters := parameters.length,
      frameSize := lowered.value.2.nextSlot, returnsValue := decide (returns = .int),
      body := lowered.value.1 }
  have sameReturns : function.returns = returns := Code.Function.returns_of_decide rfl
  have states : ∀ kind ∈ statedReturn type, function.returns = kind := by
    intro kind stated
    rw [sameReturns]
    simp only [returns, lowered, returns_lowerBody _ _ parameters body kind stated]
    rfl
  have typed : ∀ statement ∈ function.body, WellTyped
      (bodyTable analysis.table owner type name parameters span) function.returns statement := by
    rw [sameReturns]
    exact wellTyped_lowerBody (wellFormed.declare ..) accepted
  have table : after.table = _ :=
    defineFunction_table analysis earlier type name parameters body span
  refine ⟨_, congrArg DeclarationTable.records table, ?_⟩
  have emits : Emits owner analysis
      (.function type function.name parameters (some body) isExternal span) _ _ :=
    .definition continued rfl rfl (parameters_le_lowerBody declared.2.table _ parameters body)
      (takes_lowerBody _ parameters body) states typed
  rw [sameReturns] at emits
  exact emits

theorem emits_checkFunction {analysis : Analysis} {type : TypeName} {name : String}
    {parameters : List Parameter} {body : Option (List Statement)} {span : Span}
    (isExternal : Bool) (wellFormed : analysis.table.WellFormed)
    (errorless : (analysis.checkFunction owner type name parameters body span).hasErrors = false) :
    ∃ record, (analysis.checkFunction owner type name parameters body span).table.records =
        analysis.table.records ++ [record] ∧
      Emits owner analysis (.function type name parameters body isExternal span) record
        (analysis.checkFunction owner type name parameters body span).unit := by
  unfold checkFunction at errorless ⊢
  split
  · next deduced =>
    rw [if_pos deduced] at errorless
    cases (hasErrors_report analysis rfl span).symm.trans errorless
  · next stated =>
    rw [if_neg stated] at errorless
    dsimp only at errorless ⊢
    split
    · next problem refused =>
      simp only [refused] at errorless
      cases (hasErrors_report analysis (severity_earlierFunction refused) span).symm.trans errorless
    · next earlier continued =>
      simp only [continued] at errorless
      cases body with
      | none =>
        have states : statedReturn type = some ((statedReturn type).getD .int) :=
          statedReturn_of_ne_auto fun deduced => stated ⟨deduced, rfl⟩
        exact ⟨_, rfl, .prototype continued states⟩
      | some body => exact emits_defineFunction isExternal wellFormed continued errorless

/-- The item is checked without an error, adds the record, and leaves its code. -/
structure Step (owner : TransactionId) (before : Analysis) (item : Item) (after : Analysis)
    (record : DeclarationRecord) : Prop where
  wellFormedBefore : before.table.WellFormed
  wellFormedAfter : after.table.WellFormed
  accepts : Accepts owner before item after record
  emits : Emits owner before item record after.unit

theorem checkItem_emits {analysis : Analysis} {item : Item} (wellFormed : analysis.table.WellFormed)
    (errorless : (checkItem owner analysis item).hasErrors = false) :
    ∃ record, (checkItem owner analysis item).table.records =
        analysis.table.records ++ [record] ∧
      Emits owner analysis item record (checkItem owner analysis item).unit := by
  cases item with
  | «variable» type name initial span => exact emits_checkVariable wellFormed errorless
  | function type name parameters body isExternal span =>
    exact emits_checkFunction isExternal wellFormed errorless

/-- An item without an error takes a step. -/
theorem checkItem_step {analysis : Analysis} {item : Item} (wellFormed : analysis.table.WellFormed)
    (errorless : (checkItem owner analysis item).hasErrors = false) :
    ∃ record, Step owner analysis item (checkItem owner analysis item) record := by
  have extension : Extends owner analysis _ := checkItem_extends analysis item
  obtain ⟨record, accepts⟩ := checkItem_accepts errorless
  obtain ⟨emitted, records, emits⟩ := checkItem_emits wellFormed errorless
  have same : record = emitted :=
    List.singleton_inj.mp (List.append_cancel_left (accepts.records.symm.trans records))
  exact ⟨record, wellFormed, extension.wellFormed wellFormed, accepts, same ▸ emits⟩

/-! ## Accepted programs -/

theorem analyze_append_singleton (items : List Item) (item : Item) (table : DeclarationTable)
    (owner : TransactionId) :
    analyze (items ++ [item]) table owner = checkItem owner (analyze items table owner) item :=
  List.foldl_append

theorem errorless_of_append {items more : List Item} {table : DeclarationTable}
    (errorless : (analyze (items ++ more) table owner).hasErrors = false) :
    (analyze items table owner).hasErrors = false := by
  cases failed : (analyze items table owner).hasErrors with
  | false => rfl
  | true =>
    unfold analyze at errorless
    rw [List.foldl_append] at errorless
    cases (hasErrors_foldl_checkItem owner more failed).symm.trans errorless

/-- What holds at the start and is kept by every accepted item holds of an accepted program. -/
theorem analyze_induction {table : DeclarationTable} {motive : List Item → Analysis → Prop}
    (wellFormed : table.WellFormed) (start : motive [] (.start table owner))
    (step : ∀ passed item after record, motive passed (analyze passed table owner) →
      Step owner (analyze passed table owner) item after record → motive (passed ++ [item]) after)
    (items : List Item) (errorless : (analyze items table owner).hasErrors = false) :
    motive items (analyze items table owner) := by
  induction items using List.reverseRecOn with
  | nil => exact start
  | append_singleton passed item inductionHypothesis =>
    have holds := inductionHypothesis (errorless_of_append errorless)
    have passedWellFormed := (analyze_extends passed table owner).wellFormed wellFormed
    rw [analyze_append_singleton] at errorless ⊢
    obtain ⟨record, taken⟩ := checkItem_step passedWellFormed errorless
    exact step passed item _ record holds taken

/-! ## Names -/

/-- The newest record of the name is of a variable, or knows of a body. -/
def Defined (table : DeclarationTable) (name : String) : Prop :=
  ∃ record, table.lookup name = some record ∧
    (record.kind = .variable ∨ record.kind.definition?.isSome = true)

/-- The names that the unit defines are distinct, and the table knows it. -/
structure Distinct (analysis : Analysis) : Prop where
  nodup : analysis.unit.definedNames.Nodup
  defined : ∀ name ∈ analysis.unit.definedNames, Defined analysis.table name

section

variable {before after : Analysis} {item : Item} {record : DeclarationRecord}

theorem Emits.isLive {unit : CodeUnit} (emits : Emits owner before item record unit) :
    record.isLive = true := by
  cases emits <;> rfl

theorem Step.lookup (step : Step owner before item after record) (name : String) :
    after.table.lookup name =
      if record.name = name then some record else before.table.lookup name :=
  step.wellFormedBefore.lookup_append step.wellFormedAfter step.accepts.records
    step.emits.isLive name

theorem Defined.of_lookup_eq {table other : DeclarationTable} {name : String}
    (defined : Defined table name) (same : other.lookup name = table.lookup name) :
    Defined other name := by
  unfold Defined
  rw [same]
  exact defined

/-- A function that may get a body is not defined yet. -/
theorem not_defined_of_earlierFunction {table : DeclarationTable} {name : String} {arity : Nat}
    {stated : Option ReturnKind} {earlier : Option EarlierFunction}
    (continued : earlierFunction table name arity stated true = .ok earlier) :
    ¬ Defined table name := by
  rintro ⟨newest, found, defines⟩
  obtain ⟨returns, definition, kind, -, -, undefined⟩ := earlierFunction_eq_ok continued found
  rw [kind, undefined rfl] at defines
  rcases defines with isVariable | hasBody
  · cases isVariable
  · cases hasBody

/-- A prototype repeats that its function has a body. -/
theorem defined_of_prototype {table : DeclarationTable} {name : String} {arity : Nat}
    {stated : Option ReturnKind} {earlier : Option EarlierFunction}
    (continued : earlierFunction table name arity stated false = .ok earlier)
    (defined : Defined table name) : (earlier.bind EarlierFunction.definition).isSome = true := by
  obtain ⟨newest, found, defines⟩ := defined
  obtain ⟨returns, definition, kind, rfl, -⟩ := earlierFunction_eq_ok continued found
  rw [kind] at defines
  rcases defines with isVariable | hasBody
  · cases isVariable
  · exact hasBody

theorem Emits.defines_again {unit : CodeUnit} (emits : Emits owner before item record unit)
    (defined : Defined before.table record.name) :
    record.kind = .variable ∨ record.kind.definition?.isSome = true := by
  cases emits with
  | constant value unknown => exact .inl rfl
  | computed unknown typed without => exact .inl rfl
  | definition continued => exact .inr rfl
  | prototype continued => exact .inr (defined_of_prototype continued defined)

theorem Step.defined_of_ne (step : Step owner before item after record) {name : String}
    (other : record.name ≠ name) (defined : Defined before.table name) :
    Defined after.table name := by
  apply defined.of_lookup_eq
  rw [step.lookup, if_neg other]

theorem Step.defined_record (step : Step owner before item after record)
    (defines : record.kind = .variable ∨ record.kind.definition?.isSome = true) :
    Defined after.table record.name :=
  ⟨record, by rw [step.lookup, if_pos rfl], defines⟩

/-- A name that is defined stays so: whoever declares it again repeats it. -/
theorem Step.defined (step : Step owner before item after record) {name : String}
    (defined : Defined before.table name) : Defined after.table name := by
  by_cases same : record.name = name
  · subst same
    exact step.defined_record (step.emits.defines_again defined)
  · exact step.defined_of_ne same defined

/-- The names in the unit are those from before and, if it is defined, that of the item, which was
not defined before. -/
theorem Emits.definedNames_perm {unit : CodeUnit} (emits : Emits owner before item record unit) :
    unit.definedNames = before.unit.definedNames ∨
      unit.definedNames.Perm (record.name :: before.unit.definedNames) ∧
        ¬ Defined before.table record.name ∧
        (record.kind = .variable ∨ record.kind.definition?.isSome = true) := by
  have fresh : ∀ name, before.table.lookup name = none → ¬ Defined before.table name := by
    rintro name unknown ⟨newest, found, -⟩
    cases unknown.symm.trans found
  cases emits with
  | @constant name initial span value unknown =>
    refine .inr ⟨?_, fresh name unknown, .inl rfl⟩
    simp only [CodeUnit.definedNames, List.map_append, List.map_singleton, List.append_assoc,
      List.singleton_append]
    exact List.perm_middle
  | @computed name initial span value unknown typed without =>
    refine .inr ⟨?_, fresh name unknown, .inl rfl⟩
    simp only [CodeUnit.definedNames, List.map_append, List.map_singleton, List.append_assoc,
      List.singleton_append]
    exact List.perm_middle
  | definition continued =>
    refine .inr ⟨?_, not_defined_of_earlierFunction continued, .inr rfl⟩
    simp only [CodeUnit.definedNames, List.map_append, List.map_singleton, ← List.append_assoc]
    exact List.perm_append_singleton _ _
  | prototype continued => exact .inl rfl

theorem Distinct.step (distinct : Distinct before)
    (step : Step owner before item after record) : Distinct after := by
  have kept : ∀ name ∈ before.unit.definedNames, Defined after.table name :=
    fun name member => step.defined (distinct.defined name member)
  rcases step.emits.definedNames_perm with same | ⟨more, fresh, defines⟩
  · exact ⟨same ▸ distinct.nodup, same ▸ kept⟩
  · have absent : record.name ∉ before.unit.definedNames :=
      fun member => fresh (distinct.defined record.name member)
    refine ⟨more.nodup_iff.mpr (List.nodup_cons.mpr ⟨absent, distinct.nodup⟩), ?_⟩
    intro name member
    rcases List.mem_cons.mp (more.mem_iff.mp member) with rfl | old
    · exact step.defined_record defines
    · exact kept name old

end

/-! ## Items and code -/

/-- The function is the code of one of the items, with the parameters of that item and typed
against the table that its body was lowered against. -/
def Lowered (table : DeclarationTable) (owner : TransactionId) (items : List Item)
    (function : Code.Function) : Prop :=
  ∃ passed rest type parameters body isExternal span,
    items = passed ++ .function type function.name parameters (some body) isExternal span :: rest ∧
    function.parameters = parameters.length ∧
    ∀ statement ∈ function.body, WellTyped
      (bodyTable (analyze passed table owner).table owner type function.name parameters span)
      function.returns statement

/-- The initializer computes the first value of one of the items, and is typed against the table
of the items before it. -/
def Computed (table : DeclarationTable) (owner : TransactionId) (items : List Item)
    (initializer : Code.Initializer) : Prop :=
  ∃ passed rest initial span,
    items = passed ++ .variable .int initializer.global (some initial) span :: rest ∧
    HasKind (analyze passed table owner).table initializer.value .int

/-- The unit is the code of the items. -/
structure Compiled (table : DeclarationTable) (owner : TransactionId) (items : List Item)
    (unit : CodeUnit) : Prop where
  /-- Parameters have slots of the frame. -/
  parameters : ∀ function ∈ unit.functions, function.parameters ≤ function.frameSize
  /-- A body uses slots of its frame. -/
  slots : ∀ function ∈ unit.functions,
    ∀ slot ∈ Code.Statement.listSlots function.body, slot < function.frameSize
  /-- Initializers use no slots. -/
  slotless : ∀ initializer ∈ unit.initializers, initializer.value.slots = []
  /-- A body uses names for what they stand for. -/
  lowered : ∀ function ∈ unit.functions, Lowered table owner items function
  /-- An initializer uses names for what they stand for. -/
  computed : ∀ initializer ∈ unit.initializers, Computed table owner items initializer
  /-- No name is defined twice. -/
  names : unit.definedNames.Nodup
  /-- The globals are the variables, in order. -/
  globals : unit.globals.map Code.Global.name = items.filterMap Item.variable?
  /-- The functions are the definitions, in order. -/
  functions : (unit.functions.map fun function => (function.name, function.parameters)) =
    items.filterMap Item.definition?
  /-- Globals stand in the order of declaration. -/
  ascending : unit.globals.Pairwise fun earlier later =>
    earlier.declaration.number < later.declaration.number
  /-- The initializers are those of the globals without a constant, in order. -/
  initializers :
    (unit.initializers.map fun initializer => (initializer.global, initializer.declaration)) =
      (unit.globals.filter fun global => global.constant.isNone).map fun global =>
        (global.name, global.declaration)

section

variable {table : DeclarationTable} {items passed : List Item} {item : Item}

theorem Lowered.append {function : Code.Function} (lowered : Lowered table owner items function)
    (more : List Item) : Lowered table owner (items ++ more) function := by
  obtain ⟨passed, rest, type, parameters, body, isExternal, span, rfl, count, typed⟩ := lowered
  refine ⟨passed, rest ++ more, type, parameters, body, isExternal, span, ?_, count, typed⟩
  rw [List.append_assoc, List.cons_append]

theorem Computed.append {initializer : Code.Initializer}
    (computed : Computed table owner items initializer) (more : List Item) :
    Computed table owner (items ++ more) initializer := by
  obtain ⟨passed, rest, initial, span, rfl, typed⟩ := computed
  refine ⟨passed, rest ++ more, initial, span, ?_, typed⟩
  rw [List.append_assoc, List.cons_append]

/-- A new global stands behind all others. -/
theorem pairwise_append_singleton {globals : List Code.Global} {global : Code.Global}
    (ascending : globals.Pairwise fun earlier later =>
      earlier.declaration.number < later.declaration.number)
    (above : ∀ earlier ∈ globals, earlier.declaration.number < global.declaration.number) :
    (globals ++ [global]).Pairwise fun earlier later =>
      earlier.declaration.number < later.declaration.number := by
  refine List.pairwise_append.mpr ⟨ascending, List.pairwise_singleton _ _, ?_⟩
  intro earlier member later last
  rw [List.mem_singleton.mp last]
  exact above earlier member

theorem compiled_start (table : DeclarationTable) (owner : TransactionId) :
    Compiled table owner [] (start table owner).unit where
  parameters _ absent := absurd absent List.not_mem_nil
  slots _ absent := absurd absent List.not_mem_nil
  slotless _ absent := absurd absent List.not_mem_nil
  lowered _ absent := absurd absent List.not_mem_nil
  computed _ absent := absurd absent List.not_mem_nil
  names := List.nodup_nil
  globals := rfl
  functions := rfl
  ascending := .nil
  initializers := rfl

/-- The globals of a unit have records. -/
def GlobalsRecorded (analysis : Analysis) : Prop :=
  ∀ global ∈ analysis.unit.globals, global.declaration.number < analysis.table.records.length

theorem Emits.globalsRecorded {before after : Analysis} {record : DeclarationRecord}
    {unit : CodeUnit} (emits : Emits owner before item record unit) (leaves : after.unit = unit)
    (records : after.table.records = before.table.records ++ [record])
    (recorded : GlobalsRecorded before) : GlobalsRecorded after := by
  have room : after.table.records.length = before.table.records.length + 1 := by
    rw [records, List.length_append, List.length_singleton]
  have old : ∀ global ∈ before.unit.globals,
      global.declaration.number < after.table.records.length := by
    intro global member
    rw [room]
    exact Nat.lt_succ_of_lt (recorded global member)
  unfold GlobalsRecorded
  rw [leaves]
  cases emits with
  | constant =>
    refine List.forall_mem_append.mpr ⟨old, List.forall_mem_singleton.mpr ?_⟩
    exact room ▸ Nat.lt_succ_self _
  | computed =>
    refine List.forall_mem_append.mpr ⟨old, List.forall_mem_singleton.mpr ?_⟩
    exact room ▸ Nat.lt_succ_self _
  | definition => exact old
  | prototype => exact old

/-- The code of a further item is added to that of the items before it. -/
theorem Emits.compiled {record : DeclarationRecord} {unit : CodeUnit}
    (emits : Emits owner (analyze passed table owner) item record unit)
    (compiled : Compiled table owner passed (analyze passed table owner).unit)
    (recorded : GlobalsRecorded (analyze passed table owner)) (names : unit.definedNames.Nodup) :
    Compiled table owner (passed ++ [item]) unit := by
  have lowered : ∀ function ∈ (analyze passed table owner).unit.functions,
      Lowered table owner (passed ++ [item]) function :=
    fun function member => (compiled.lowered function member).append [item]
  have computed : ∀ initializer ∈ (analyze passed table owner).unit.initializers,
      Computed table owner (passed ++ [item]) initializer :=
    fun initializer member => (compiled.computed initializer member).append [item]
  cases emits with
  | constant value unknown =>
    exact
      { compiled with
        lowered, computed, names
        globals := by simp [compiled.globals, Item.variable?]
        functions := by simp [compiled.functions, Item.definition?]
        ascending := pairwise_append_singleton compiled.ascending recorded
        initializers := by simp [compiled.initializers] }
  | computed unknown typed without =>
    exact
      { compiled with
        slotless := List.forall_mem_append.mpr
          ⟨compiled.slotless, List.forall_mem_singleton.mpr without⟩
        lowered
        computed := List.forall_mem_append.mpr ⟨computed, List.forall_mem_singleton.mpr
          ⟨passed, [], _, _, rfl, typed⟩⟩
        names
        globals := by simp [compiled.globals, Item.variable?]
        functions := by simp [compiled.functions, Item.definition?]
        ascending := pairwise_append_singleton compiled.ascending recorded
        initializers := by simp [compiled.initializers] }
  | definition continued declared count room inside states typed =>
    exact
      { compiled with
        parameters := List.forall_mem_append.mpr
          ⟨compiled.parameters, List.forall_mem_singleton.mpr room⟩
        slots := List.forall_mem_append.mpr
          ⟨compiled.slots, List.forall_mem_singleton.mpr inside⟩
        lowered := List.forall_mem_append.mpr ⟨lowered, List.forall_mem_singleton.mpr
          ⟨passed, [], _, _, _, _, _, rfl, count, typed⟩⟩
        computed, names
        globals := by simp [compiled.globals, Item.variable?]
        functions := by simp [compiled.functions, Item.definition?, count] }
  | prototype continued =>
    exact
      { compiled with
        lowered, computed, names
        globals := by simp [compiled.globals, Item.variable?]
        functions := by simp [compiled.functions, Item.definition?] }

end

/-- The unit of an accepted program is the code of its items. -/
theorem compiled_analyze {table : DeclarationTable} (wellFormed : table.WellFormed)
    {items : List Item} (errorless : (analyze items table owner).hasErrors = false) :
    Compiled table owner items (analyze items table owner).unit := by
  refine (analyze_induction (motive := fun items analysis =>
    Compiled table owner items analysis.unit ∧ GlobalsRecorded analysis ∧ Distinct analysis)
    wellFormed ⟨compiled_start table owner, ?_, ?_⟩ ?_ items errorless).1
  · exact fun _ absent => absurd absent List.not_mem_nil
  · exact ⟨List.nodup_nil, fun _ absent => absurd absent List.not_mem_nil⟩
  · rintro passed item after record ⟨compiled, recorded, distinct⟩ step
    have distinctAfter := distinct.step step
    exact ⟨step.emits.compiled compiled recorded distinctAfter.nodup,
      step.emits.globalsRecorded rfl step.accepts.records recorded, distinctAfter⟩

end Analysis

end IncrementalC
