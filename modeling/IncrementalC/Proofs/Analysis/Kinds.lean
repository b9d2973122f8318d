import IncrementalC.Proofs.Analysis.Definition
import IncrementalC.Proofs.Analysis.Units

/-!
Contract: what functions of an accepted program are recorded to return in the end.

A name keeps its signature while further items are accepted. Only a function whose kind is deduced
changes it, behind its own body. So the kinds that code was checked with are those that are
recorded in the end, except that of the calls by which such a function calls itself.

Owns: the signatures that names have in the end, and the kinds of operands and returned values by
them.

Does not own: which names are declared.
-/

namespace IncrementalC

open Code (HasKind WellTyped)
open Syntax (Item TypeName)

/-! ## Signatures -/

/-- What the newest live record of the name says a call takes and gives back. -/
def DeclarationTable.signature? (table : DeclarationTable) (name : String) :
    Option (Nat × ReturnKind) :=
  (table.lookup name).bind fun record => record.kind.signature?

/-- Whether the expression is a call of the function. -/
def Code.Expression.calls (name : String) : Code.Expression → Bool
  | .call callee _ => callee = name
  | _ => false

/-- The kind of the value of an expression, by what the table says of the function that it calls. -/
def Code.Expression.kind? (table : DeclarationTable) : Code.Expression → Option ReturnKind
  | .call callee _ => (table.signature? callee).map Prod.snd
  | _ => some .int

section

variable {table later : DeclarationTable} {name : String} {arity : Nat} {returns : ReturnKind}

theorem DeclarationTable.DeclaresFunction.signature?
    (declared : table.DeclaresFunction name arity returns) :
    table.signature? name = some (arity, returns) := by
  obtain ⟨record, definition, found, -, kind⟩ := declared
  rw [DeclarationTable.signature?, found, Option.bind_some, kind]
  rfl

theorem Code.HasKind.kind? {expression : Code.Expression} {kind : ReturnKind}
    (typed : HasKind table expression kind) : expression.kind? table = some kind := by
  cases typed with
  | call declared typed => rw [Code.Expression.kind?, declared.signature?, Option.map_some]
  | _ => rfl

/-- What names are said to take and give back stays so. -/
def DeclarationTable.KeepsSignatures (table later : DeclarationTable) : Prop :=
  ∀ name signature, table.signature? name = some signature →
    later.signature? name = some signature

theorem DeclarationTable.KeepsSignatures.kind? (keeps : table.KeepsSignatures later)
    {expression : Code.Expression} {kind : ReturnKind}
    (known : expression.kind? table = some kind) : expression.kind? later = some kind := by
  cases expression with
  | call callee arguments =>
    obtain ⟨signature, found, rfl⟩ := Option.map_eq_some_iff.mp known
    rw [Code.Expression.kind?, keeps callee signature found, Option.map_some]
  | _ => exact known

end

namespace Analysis

variable {owner : TransactionId} {before after : Analysis} {item : Item}
  {record : DeclarationRecord}

theorem Adds.signature {table : DeclarationTable} (adds : Adds owner table item [record]) :
    ∀ newest ∈ table.lookup record.name, record.kind.signature? = newest.kind.signature? := by
  cases adds with
  | defined own signature => exact signature
  | repeated own signature => exact signature

theorem signature?_append {table later : DeclarationTable} (wellFormed : table.WellFormed)
    (laterWellFormed : later.WellFormed) {record : DeclarationRecord}
    (records : later.records = table.records ++ [record]) (live : record.isLive = true)
    (name : String) :
    later.signature? name =
      if record.name = name then record.kind.signature? else table.signature? name := by
  unfold DeclarationTable.signature?
  rw [wellFormed.lookup_append laterWellFormed records live]
  split <;> rfl

theorem Step.signature? (step : Step owner before item after record) (name : String) :
    after.table.signature? name =
      if record.name = name then record.kind.signature? else before.table.signature? name :=
  signature?_append step.wellFormedBefore step.wellFormedAfter step.accepts.records
    step.emits.isLive name

/-- The new record is numbered by its place. -/
theorem Step.get?_record (step : Step owner before item after record) :
    after.table.get? ⟨before.table.records.length⟩ = some record := by
  rw [DeclarationTable.get?, step.accepts.records]
  exact List.getElem?_concat_length

theorem Step.keepsSignatures (step : Step owner before item after record) :
    before.table.KeepsSignatures after.table := by
  intro name signature known
  rw [step.signature?]
  split
  · next same =>
    subst same
    obtain ⟨newest, found, newestKnows⟩ := Option.bind_eq_some_iff.mp known
    rw [step.accepts.declares.adds.signature newest found]
    exact newestKnows
  · exact known

/-! ## Kinds -/

/-- The function of a definition with the type is recorded with the kind that it returns. Its
returns are of that kind, and everything else is an integer, except that a function whose kind is
deduced takes what it returns for an integer in its own body. -/
structure Kinded (owner : TransactionId) (table : DeclarationTable) (type : TypeName)
    (function : Code.Function) : Prop where
  recorded : ∃ record, table.get? function.declaration = some record ∧
    record.name = function.name ∧
    record.kind = .function function.parameters function.returns (some owner)
  signature : table.signature? function.name = some (function.parameters, function.returns)
  returned : ∀ value ∈ Code.Statement.listReturned function.body,
    (value = none ∧ function.returns = .void) ∨
      ∃ given, value = some given ∧ given.kind? table = some function.returns
  operands : ∀ operand ∈ Code.Statement.listOperands function.returnsValue function.body,
    operand.kind? table = some
      (if type = .auto ∧ function.returns = .void ∧ operand.calls function.name then .void
        else .int)

section

variable {type : TypeName} {function : Code.Function} {parameters : List Syntax.Parameter}
  {span : Span} {expression : Code.Expression} {kind : ReturnKind}

theorem Kinded.step (kinded : Kinded owner before.table type function)
    (step : Step owner before item after record) : Kinded owner after.table type function where
  recorded := by
    obtain ⟨known, found, named, kind⟩ := kinded.recorded
    refine ⟨known, ?_, named, kind⟩
    obtain ⟨inside, -⟩ := List.getElem?_eq_some_iff.mp found
    rw [DeclarationTable.get?, step.accepts.records, List.getElem?_append_left inside]
    exact found
  signature := step.keepsSignatures _ _ kinded.signature
  returned value member := (kinded.returned value member).imp_right fun ⟨given, same, known⟩ =>
    ⟨given, same, step.keepsSignatures.kind? known⟩
  operands operand member := step.keepsSignatures.kind? (kinded.operands operand member)

/-- In its own body a function is taken for what it states it returns, or else for one that returns
an integer. -/
theorem signature?_bodyTable (wellFormed : before.table.WellFormed) (name other : String) :
    (bodyTable before.table owner type name parameters span).signature? other =
      if name = other then some (parameters.length, (statedReturn type).getD .int)
      else before.table.signature? other :=
  signature?_append wellFormed (wellFormed.declare ..) rfl rfl other

/-- Behind the body every kind is what it was taken for, except that of the function itself. -/
theorem kind?_of_bodyTable (wellFormed : before.table.WellFormed)
    (recorded : ∀ other, after.table.signature? other =
      if function.name = other then some (function.parameters, function.returns)
      else before.table.signature? other)
    (typed : HasKind (bodyTable before.table owner type function.name parameters span)
      expression kind) :
    if expression.calls function.name then
      expression.kind? after.table = some function.returns ∧
        kind = (statedReturn type).getD .int
    else expression.kind? after.table = some kind := by
  have taken := typed.kind?
  cases expression with
  | call callee arguments =>
    simp only [Code.Expression.kind?, Code.Expression.calls, recorded,
      signature?_bodyTable wellFormed] at taken ⊢
    by_cases own : function.name = callee
    · subst own
      simpa [eq_comm] using taken
    · simpa [own, Ne.symm own] using taken
  | _ => simpa [Code.Expression.calls, Code.Expression.kind?] using taken

/-- A function is recorded with the kinds that its body was checked for. -/
theorem kinded_of_bodyTable (wellFormed : before.table.WellFormed)
    (recorded : ∃ record, after.table.get? function.declaration = some record ∧
      record.name = function.name ∧
      record.kind = .function function.parameters function.returns (some owner))
    (signature : ∀ other, after.table.signature? other =
      if function.name = other then some (function.parameters, function.returns)
      else before.table.signature? other)
    (states : ∀ kind ∈ statedReturn type, function.returns = kind)
    (typed : ∀ statement ∈ function.body, WellTyped
      (bodyTable before.table owner type function.name parameters span) function.returns
      statement) : Kinded owner after.table type function where
  recorded := recorded
  signature := by rw [signature, if_pos rfl]
  returned := by
    apply Code.Statement.forall_mem_listReturned
    intro statement member value returned
    refine ((typed statement member).returned value returned).imp_right ?_
    rintro ⟨given, same, givenTyped⟩
    have kinds := kind?_of_bodyTable wellFormed signature givenTyped
    refine ⟨given, same, ?_⟩
    split at kinds
    · exact kinds.1
    · exact kinds
  operands := by
    have sameFlag : function.returnsValue = decide (function.returns = .int) := by
      unfold Code.Function.returns
      cases function.returnsValue <;> rfl
    rw [sameFlag]
    apply Code.Statement.forall_mem_listOperands
    intro statement member operand used
    have kinds := kind?_of_bodyTable wellFormed signature ((typed statement member).operands _ used)
    split at kinds
    · next own =>
      obtain ⟨known, takenForInt⟩ := kinds
      rw [known]
      -- A function that is taken for one that returns an integer states that, or states nothing.
      cases type with
      | int =>
        rw [states .int rfl]
        simp
      | void => cases takenForInt
      | auto => cases function.returns <;> simp [own]
    · next foreign =>
      rw [kinds]
      simp [foreign]

/-- A new function of an accepted item has the kinds that it is recorded with. -/
theorem Step.kinded (step : Step owner before item after record) :
    ∀ function ∈ after.unit.functions, function ∈ before.unit.functions ∨
      ∃ type parameters body isExternal span,
        item = .function type function.name parameters (some body) isExternal span ∧
          Kinded owner after.table type function := by
  have wellFormed := step.wellFormedBefore
  have found := step.get?_record
  have signature := step.signature?
  have emits := step.emits
  generalize after.unit = unit at emits
  intro function member
  cases emits with
  | constant value unknown => exact .inl member
  | computed unknown typed without => exact .inl member
  | prototype continued states => exact .inl member
  | definition continued declared count room inside states typed =>
    rcases List.mem_append.mp member with old | new
    · exact .inl old
    · obtain rfl := List.mem_singleton.mp new
      rw [← declared] at found
      exact .inr ⟨_, _, _, _, _, rfl,
        kinded_of_bodyTable wellFormed ⟨_, found, rfl, rfl⟩ signature states typed⟩

end

/-! ## Programs -/

/-- The kinds that the code of a program was checked with are those that are recorded in the end,
except in the bodies of functions whose kind is deduced. -/
structure KindsAgree (owner : TransactionId) (items : List Item) (table : DeclarationTable)
    (unit : CodeUnit) : Prop where
  functions : ∀ function ∈ unit.functions, ∃ type parameters body isExternal span,
    .function type function.name parameters (some body) isExternal span ∈ items ∧
      Kinded owner table type function
  initializers : ∀ initializer ∈ unit.initializers,
    ∀ operand ∈ initializer.value :: initializer.value.operands, operand.kind? table = some .int

theorem KindsAgree.step {items : List Item}
    (agree : KindsAgree owner items before.table before.unit)
    (step : Step owner before item after record) :
    KindsAgree owner (items ++ [item]) after.table after.unit where
  functions function member := by
    rcases step.kinded function member with old | ⟨type, parameters, body, isExternal, span,
      rfl, kinded⟩
    · obtain ⟨type, parameters, body, isExternal, span, listed, kinded⟩ :=
        agree.functions function old
      exact ⟨type, parameters, body, isExternal, span, List.mem_append_left _ listed,
        kinded.step step⟩
    · exact ⟨type, parameters, body, isExternal, span,
        List.mem_append_right _ (List.mem_singleton_self _), kinded⟩
  initializers := by
    have keeps := step.keepsSignatures
    have old : ∀ initializer ∈ before.unit.initializers,
        ∀ operand ∈ initializer.value :: initializer.value.operands,
          operand.kind? after.table = some .int :=
      fun initializer member operand used =>
        keeps.kind? (agree.initializers initializer member operand used)
    have emits := step.emits
    generalize after.unit = unit at emits
    cases emits with
    | constant value unknown => exact old
    | computed unknown typed without =>
      refine List.forall_mem_append.mpr ⟨old, List.forall_mem_singleton.mpr ?_⟩
      exact fun operand used => keeps.kind? (typed.withOperands operand used).kind?
    | prototype continued states => exact old
    | definition continued declared count room inside states typed => exact old

/-- The kinds in an accepted program agree with the table in the end. -/
theorem kindsAgree_analyze {table : DeclarationTable} (wellFormed : table.WellFormed)
    {items : List Item} (errorless : (analyze items table owner).hasErrors = false) :
    KindsAgree owner items (analyze items table owner).table (analyze items table owner).unit := by
  refine analyze_induction
    (motive := fun items analysis => KindsAgree owner items analysis.table analysis.unit)
    wellFormed ⟨?_, ?_⟩ ?_ items errorless
  · exact fun _ absent => absurd absent List.not_mem_nil
  · exact fun _ absent => absurd absent List.not_mem_nil
  · exact fun _ _ _ _ agree step => agree.step step

end Analysis

end IncrementalC
