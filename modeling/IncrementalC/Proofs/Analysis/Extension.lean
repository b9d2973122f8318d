import IncrementalC.Analysis.Program
import IncrementalC.Proofs.Declaration.Index

/-!
Contract: what an analysis adds to a table.

Owns:
- that an analysis leaves earlier records alone and adds pending records of its owner,
  which are the declarations it lists;
- that initializers stand in the order of the declarations;
- that no record mentions a transaction which is not begun yet.

Does not own: what is reported on the way.
-/

namespace IncrementalC

open Syntax (Expression Statement Item Parameter TypeName)

/-! ## Records that mention begun transactions only -/

/-- The transaction that holds the body of a function. -/
def DeclarationKind.definition? : DeclarationKind → Option TransactionId
  | .variable => none
  | .function _ _ definition => definition

/-- The record belongs to a transaction with a number below `limit`, and so does the
body it knows of. -/
structure DeclarationRecord.Below (limit : Nat) (record : DeclarationRecord) : Prop where
  owner : record.owner.number < limit
  definition : ∀ id ∈ record.kind.definition?, id.number < limit

/-- All records are of transactions with numbers below `limit`. -/
def DeclarationTable.Below (limit : Nat) (table : DeclarationTable) : Prop :=
  ∀ record ∈ table.records, record.Below limit

namespace Analysis

/-! ## Extension -/

/-- `after` continues `before` on behalf of `owner`. -/
structure Extends (owner : TransactionId) (before after : Analysis) : Prop where
  wellFormed : before.table.WellFormed → after.table.WellFormed
  added : ∃ records initializers,
    after.table.records = before.table.records ++ records ∧
    (∀ record ∈ records, record.owner = owner ∧ record.visibility = .pending) ∧
    after.declarations = before.declarations ++ records.map DeclarationRecord.id ∧
    after.unit.initializers = before.unit.initializers ++ initializers ∧
    (initializers.map Code.Initializer.declaration).Sublist
      (records.map DeclarationRecord.id)
  below : ∀ limit, before.table.WellFormed → owner.number < limit →
    before.table.Below limit → after.table.Below limit
  transaction : after.unit.transaction = before.unit.transaction

namespace Extends

variable {owner : TransactionId} {before between after : Analysis}

theorem refl (analysis : Analysis) : Extends owner analysis analysis where
  wellFormed := id
  added := ⟨[], [], by simp⟩
  below _ _ _ known := known
  transaction := rfl

theorem trans (first : Extends owner before between) (second : Extends owner between after) :
    Extends owner before after where
  wellFormed wellFormed := second.wellFormed (first.wellFormed wellFormed)
  added := by
    obtain ⟨firstRecords, firstInitializers, firstTable, firstOwned, firstDeclarations,
      firstUnit, firstOrder⟩ := first.added
    obtain ⟨secondRecords, secondInitializers, secondTable, secondOwned, secondDeclarations,
      secondUnit, secondOrder⟩ := second.added
    refine ⟨firstRecords ++ secondRecords, firstInitializers ++ secondInitializers, ?_, ?_, ?_,
      ?_, ?_⟩
    · rw [secondTable, firstTable, List.append_assoc]
    · intro record member
      exact (List.mem_append.mp member).elim (firstOwned record) (secondOwned record)
    · rw [secondDeclarations, firstDeclarations, List.map_append, List.append_assoc]
    · rw [secondUnit, firstUnit, List.append_assoc]
    · rw [List.map_append, List.map_append]
      exact firstOrder.append secondOrder
  below limit wellFormed owned known :=
    second.below limit (first.wellFormed wellFormed) owned (first.below limit wellFormed owned known)
  transaction := second.transaction.trans first.transaction

theorem addReports (analysis : Analysis) (reports : List Diagnostic) :
    Extends owner analysis (analysis.addReports reports) where
  wellFormed := id
  added := ⟨[], [], by simp [Analysis.addReports]⟩
  below _ _ _ known := known
  transaction := rfl

theorem addFunction (analysis : Analysis) (function : Code.Function) :
    Extends owner analysis (analysis.addFunction function) where
  wellFormed := id
  added := ⟨[], [], by simp [Analysis.addFunction]⟩
  below _ _ _ known := known
  transaction := rfl

end Extends

/-! ## Declaring -/

variable {owner : TransactionId}

theorem below_declare {table : DeclarationTable} {limit : Nat} {kind : DeclarationKind}
    (known : table.Below limit) (owned : owner.number < limit)
    (defined : ∀ id ∈ kind.definition?, id.number < limit) (name : String) (span : Span) :
    (table.declare name kind owner span).2.Below limit := by
  intro record member
  rcases List.mem_append.mp member with older | new
  · exact known record older
  · rw [List.mem_singleton.mp new]
    exact ⟨owned, defined⟩

theorem declare_extends (analysis : Analysis) (name : String) (kind : DeclarationKind)
    (span : Span)
    (defined : ∀ limit, analysis.table.WellFormed → owner.number < limit →
      analysis.table.Below limit → ∀ id ∈ kind.definition?, id.number < limit) :
    Extends owner analysis (analysis.declare owner name kind span).2 where
  wellFormed wellFormed := wellFormed.declare ..
  added := ⟨[⟨⟨analysis.table.records.length⟩, name, kind, owner, .pending, span⟩], [],
    by simp [Analysis.declare, DeclarationTable.declare, DeclarationTable.add]⟩
  below limit wellFormed owned known :=
    below_declare known owned (defined limit wellFormed owned known) name span
  transaction := rfl

/-- A variable and its initializer carry the same number. -/
private theorem declareValue_extends (analysis : Analysis) (name : String)
    (value : Option Code.Expression) (span : Span) :
    Extends owner analysis
      ((analysis.declare owner name .variable span).2.addGlobal name
        (analysis.declare owner name .variable span).1 value) := by
  let added : DeclarationRecord :=
    ⟨⟨analysis.table.records.length⟩, name, .variable, owner, .pending, span⟩
  have order : ∀ initializers : List Code.Initializer,
      (∀ initializer ∈ initializers, initializer.declaration = added.id) →
      initializers.length ≤ 1 →
      (initializers.map Code.Initializer.declaration).Sublist
        ([added].map DeclarationRecord.id) := by
    intro initializers same short
    cases initializers with
    | nil => exact List.nil_sublist _
    | cons only more =>
      cases more with
      | cons second rest => simp at short
      | nil =>
        rw [List.map_singleton, same only (List.mem_singleton_self only)]
        exact List.Sublist.refl _
  refine ⟨fun wellFormed => wellFormed.declare .., ?_, ?_, rfl⟩
  · refine ⟨[added], _, rfl, ?_, rfl, rfl, order _ ?_ ?_⟩
    · simp [added]
    · intro initializer member
      split at member
      · rw [List.mem_singleton.mp member]
        rfl
      · exact absurd member List.not_mem_nil
    · split <;> simp
  · intro limit _ owned known
    exact below_declare known owned (by simp [DeclarationKind.definition?]) name span

theorem declareVariable_extends (analysis : Analysis) (name : String)
    (initial : Option Expression) (span : Span) :
    Extends owner analysis (analysis.declareVariable owner name initial span) :=
  (Extends.addReports analysis _).trans (declareValue_extends _ name _ span)

theorem checkVariable_extends (analysis : Analysis) (type : TypeName) (name : String)
    (initial : Option Expression) (span : Span) :
    Extends owner analysis (analysis.checkVariable owner type name initial span) := by
  unfold checkVariable
  cases type with
  | void => exact Extends.addReports ..
  | auto => exact Extends.addReports ..
  | int =>
    dsimp only
    split
    · exact Extends.addReports ..
    · exact Extends.addReports ..
    · exact declareVariable_extends ..

/-! ## Functions -/

section

variable {table : DeclarationTable} {name : String} {arity : Nat} {stated : Option ReturnKind}
  {hasBody : Bool} {earlier : Option EarlierFunction} {newest : DeclarationRecord}

theorem earlierFunction_of_none (unknown : table.lookup name = none) (arity : Nat)
    (stated : Option ReturnKind) (hasBody : Bool) :
    earlierFunction table name arity stated hasBody = .ok none := by
  unfold earlierFunction
  rw [unknown]
  rfl

/-- Of a function with the same signature only a second body is refused. -/
theorem earlierFunction_of_function (found : table.lookup name = some newest)
    {returns : ReturnKind} {definition : Option TransactionId}
    (kind : newest.kind = .function arity returns definition)
    (sameReturn : ∀ kind ∈ stated, kind = returns) (hasBody : Bool) :
    earlierFunction table name arity stated hasBody =
      if hasBody ∧ definition.isSome then .error (.redefinition name)
      else .ok (some ⟨returns, definition⟩) := by
  have agrees : ¬(arity ≠ arity ∨ stated.isSome ∧ stated ≠ some returns) := by
    cases stated with
    | none => simp
    | some kind => simp [sameReturn kind rfl]
  unfold earlierFunction
  rw [found, Option.map_some, kind]
  dsimp only
  rw [if_neg agrees]

/-- The newest live record of a name is of a function with the arity, which returns what is
stated, and it knows of the body that the earlier declaration knows of. -/
theorem earlierFunction_eq_ok
    (continued : earlierFunction table name arity stated hasBody = .ok earlier)
    (found : table.lookup name = some newest) :
    ∃ returns definition, newest.kind = .function arity returns definition ∧
      earlier = some ⟨returns, definition⟩ ∧ (∀ kind ∈ stated, kind = returns) ∧
      (hasBody = true → definition = none) := by
  unfold earlierFunction at continued
  rw [found, Option.map_some] at continued
  rcases kind : newest.kind with _ | ⟨earlierArity, returns, definition⟩
  · rw [kind] at continued
    cases continued
  · rw [kind] at continued
    dsimp only at continued
    split at continued
    · cases continued
    · next sameSignature =>
      obtain ⟨sameArity, sameReturn⟩ := not_or.mp sameSignature
      split at continued
      · cases continued
      · next undefined =>
        obtain rfl := Decidable.not_not.mp sameArity
        refine ⟨returns, definition, rfl, (Except.ok.inj continued).symm, ?_, ?_⟩
        · rintro kind stated
          rw [stated] at sameReturn
          simpa using sameReturn
        · intro body
          simpa [body] using undefined

/-- A conflict with an earlier declaration is an error. -/
theorem severity_earlierFunction {problem : Problem}
    (refused : earlierFunction table name arity stated hasBody = .error problem) :
    problem.code.severity = .error := by
  unfold earlierFunction at refused
  split at refused
  · cases refused
  · cases refused
    rfl
  · split at refused
    · cases refused
      rfl
    · split at refused
      · cases refused
        rfl
      · cases refused

end

/-- An earlier body belongs to a transaction that some record mentions. -/
theorem definition_of_earlierFunction {table : DeclarationTable} (wellFormed : table.WellFormed)
    {limit : Nat} (known : table.Below limit) {name : String} {arity : Nat}
    {stated : Option ReturnKind} {hasBody : Bool} {earlier : Option EarlierFunction}
    (continued : earlierFunction table name arity stated hasBody = .ok earlier) :
    ∀ id ∈ earlier.bind EarlierFunction.definition, id.number < limit := by
  cases found : table.lookup name with
  | none =>
    rw [earlierFunction_of_none found] at continued
    obtain rfl := Except.ok.inj continued
    exact nofun
  | some newest =>
    have bound := (known newest (wellFormed.mem_of_lookup found)).definition
    obtain ⟨returns, definition, kind, rfl, -⟩ := earlierFunction_eq_ok continued found
    rw [kind] at bound
    exact bound

/-- A function with a body is one new record, whatever it turns out to return. -/
theorem defineFunction_extends (analysis : Analysis) (earlier : Option EarlierFunction)
    (type : TypeName) (name : String) (arity : Nat) (returns : ReturnKind)
    (parameters : List Parameter) (body : List Statement) (span : Span) :
    Extends owner analysis
      ((analysis.declare owner name (.function arity returns (some owner)) span).2.defineFunction
        (analysis.declare owner name (.function arity returns (some owner)) span).1 earlier owner
        type name parameters body span) := by
  have ownBody : ∀ (arity : Nat) (returns : ReturnKind),
      Extends owner analysis
        (analysis.declare owner name (.function arity returns (some owner)) span).2 := by
    intro arity returns
    apply declare_extends analysis name _ span
    intro limit _ owned _ id defined
    rw [← Option.some.inj defined]
    exact owned
  unfold defineFunction
  dsimp only
  refine Extends.trans ?_ ((Extends.addReports _ _).trans (Extends.addFunction _ _))
  split
  · -- A deduced kind replaces the one that the function was declared with.
    have settled := DeclarationTable.refine_declare analysis.table name
      (.function arity returns (some owner))
    simp only [Analysis.declare] at ownBody ⊢
    rw [settled]
    exact ownBody ..
  · exact ownBody ..

theorem checkFunction_extends (analysis : Analysis) (type : TypeName) (name : String)
    (parameters : List Parameter) (body : Option (List Statement)) (span : Span) :
    Extends owner analysis
      (analysis.checkFunction owner type name parameters body span) := by
  unfold checkFunction
  split
  · exact Extends.addReports ..
  · dsimp only
    split
    · exact Extends.addReports ..
    · rename_i earlier continued
      cases body with
      | none =>
        apply declare_extends analysis name _ span
        intro limit wellFormed _ known
        exact definition_of_earlierFunction wellFormed known continued
      | some body => exact defineFunction_extends ..

/-! ## Items -/

theorem checkItem_extends (analysis : Analysis) (item : Item) :
    Extends owner analysis (checkItem owner analysis item) := by
  cases item with
  | «variable» type name initial span => exact checkVariable_extends ..
  | function returns name parameters body isExternal span => exact checkFunction_extends ..

theorem foldl_checkItem_extends (items : List Item) (analysis : Analysis) :
    Extends owner analysis (items.foldl (checkItem owner) analysis) := by
  induction items generalizing analysis with
  | nil => exact Extends.refl analysis
  | cons head tail inductionHypothesis =>
    exact (checkItem_extends analysis head).trans (inductionHypothesis _)

/-- An analysis adds records of its owner only. -/
theorem analyze_extends (items : List Item) (table : DeclarationTable) (owner : TransactionId) :
    Extends owner (.start table owner) (analyze items table owner) :=
  foldl_checkItem_extends items (.start table owner)

end Analysis

end IncrementalC
