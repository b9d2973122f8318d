import IncrementalC.Proofs.Declaration.Renumbering

/-!
Contract: analyses against matching tables.

Items that are checked against matching tables are reported alike, and give the same
declarations and the same code up to the renumbering.

Owns: renumbered code, matching analyses, and that checking keeps analyses matching.

Does not own: why lowering a body does not see the numbers.
-/

namespace IncrementalC

open Syntax (Expression Statement Item Parameter TypeName)

/-! ## Renumbered code -/

namespace Renumbering

variable (renumbering : Renumbering)

/-- A function by the new numbers. -/
def function (function : Code.Function) : Code.Function :=
  { function with declaration := renumbering.declaration function.declaration }

/-- A global variable by the new numbers. -/
def global (entry : Code.Global) : Code.Global :=
  { entry with declaration := renumbering.declaration entry.declaration }

/-- An initializer by the new numbers. -/
def initializer (initializer : Code.Initializer) : Code.Initializer :=
  { initializer with declaration := renumbering.declaration initializer.declaration }

/-- The code of a transaction by the new numbers. -/
def code (unit : CodeUnit) : CodeUnit where
  transaction := unit.transaction.map renumbering.transaction
  functions := unit.functions.map renumbering.function
  globals := unit.globals.map renumbering.global
  initializers := unit.initializers.map renumbering.initializer

end Renumbering

namespace Analysis

/-! ## Matching analyses -/

/-- The analyses agree up to the numbers. -/
structure Matches (renumbering : Renumbering) (left right : Analysis) : Prop where
  table : left.table.Matches renumbering right.table
  declarations : left.declarations = right.declarations.map renumbering.declaration
  unit : left.unit = renumbering.code right.unit
  diagnostics : left.diagnostics = right.diagnostics

theorem start_matches {renumbering : Renumbering} {left right : DeclarationTable}
    (matched : left.Matches renumbering right) (owner : TransactionId) :
    Matches renumbering (.start left (renumbering.transaction owner)) (.start right owner) :=
  ⟨matched, rfl, rfl, rfl⟩

namespace Matches

variable {renumbering : Renumbering} {left right : Analysis} {owner : TransactionId}

theorem addReports (matched : Matches renumbering left right) (reports : List Diagnostic) :
    Matches renumbering (left.addReports reports) (right.addReports reports) where
  table := matched.table
  declarations := matched.declarations
  unit := matched.unit
  diagnostics := congrArg (· ++ reports) matched.diagnostics

theorem report (matched : Matches renumbering left right) (problem : Problem) (span : Span) :
    Matches renumbering (left.report problem span) (right.report problem span) :=
  matched.addReports _

theorem declare_id (matched : Matches renumbering left right) (owner : TransactionId) (name : String)
    (kind : DeclarationKind) (span : Span) :
    (left.declare (renumbering.transaction owner) name (renumbering.kind kind) span).1 =
      renumbering.declaration (right.declare owner name kind span).1 :=
  matched.table.next_id

theorem declare (matched : Matches renumbering left right) (owner : TransactionId) (name : String)
    (kind : DeclarationKind) (span : Span) :
    Matches renumbering
      (left.declare (renumbering.transaction owner) name (renumbering.kind kind) span).2
      (right.declare owner name kind span).2 where
  table := matched.table.declare ..
  declarations := by
    have same := matched.declare_id owner name kind span
    simp only [Analysis.declare] at same ⊢
    rw [matched.declarations, same, List.map_append, List.map_singleton]
  unit := matched.unit
  diagnostics := matched.diagnostics

theorem addGlobal (matched : Matches renumbering left right) (name : String)
    (id : DeclarationId) (value : Option Code.Expression) :
    Matches renumbering (left.addGlobal name (renumbering.declaration id) value)
      (right.addGlobal name id value) where
  table := matched.table
  declarations := matched.declarations
  unit := by
    rcases value with _ | value
    · simp [Analysis.addGlobal, matched.unit, Renumbering.code, Renumbering.global]
    · cases value <;>
        simp [Analysis.addGlobal, matched.unit, Renumbering.code, Renumbering.global,
          Renumbering.initializer]
  diagnostics := matched.diagnostics

theorem addFunction (matched : Matches renumbering left right) (function : Code.Function) :
    Matches renumbering (left.addFunction (renumbering.function function))
      (right.addFunction function) where
  table := matched.table
  declarations := matched.declarations
  unit := by simp [Analysis.addFunction, matched.unit, Renumbering.code]
  diagnostics := matched.diagnostics

/-- A function that was just declared can be settled as something else. -/
theorem refine (matched : Matches renumbering left right) (id : DeclarationId)
    (kind : DeclarationKind) :
    Matches renumbering
      { left with
        table := left.table.refine (renumbering.declaration id) (renumbering.kind kind) }
      { right with table := right.table.refine id kind } where
  table := matched.table.refine id kind
  declarations := matched.declarations
  unit := matched.unit
  diagnostics := matched.diagnostics

/-! ## Variables -/

private theorem declareValue (matched : Matches renumbering left right) (name : String)
    (value : Checked (Option Code.Expression)) (span : Span) :
    Matches renumbering
      (((left.addReports value.reports).declare (renumbering.transaction owner) name .variable
        span).2.addGlobal name
        ((left.addReports value.reports).declare (renumbering.transaction owner) name .variable
          span).1 value.value)
      (((right.addReports value.reports).declare owner name .variable span).2.addGlobal name
        ((right.addReports value.reports).declare owner name .variable span).1 value.value) := by
  have reported := matched.addReports value.reports
  have declared := reported.declare owner name .variable span
  have sameId := reported.declare_id owner name .variable span
  have added := declared.addGlobal name
    ((right.addReports value.reports).declare owner name .variable span).1 value.value
  rw [← sameId] at added
  exact added

theorem declareVariable (matched : Matches renumbering left right) (name : String)
    (initial : Option Expression) (span : Span) :
    Matches renumbering
      (left.declareVariable (renumbering.transaction owner) name initial span)
      (right.declareVariable owner name initial span) := by
  have agree := matched.table.agreesWith
  unfold Analysis.declareVariable
  cases initial with
  | none => exact matched.declareValue name (pure none) span
  | some initial =>
    simp only [lowerInt_congr agree]
    exact matched.declareValue name (some <$> lowerInt right.table [] initial) span

theorem checkVariable (matched : Matches renumbering left right) (type : TypeName)
    (name : String) (initial : Option Expression) (span : Span) :
    Matches renumbering
      (left.checkVariable (renumbering.transaction owner) type name initial span)
      (right.checkVariable owner type name initial span) := by
  unfold Analysis.checkVariable
  cases type with
  | void => exact matched.report ..
  | auto => exact matched.report ..
  | int =>
    dsimp only
    rw [matched.table.lookup_kind_eq]
    rcases (right.table.lookup name).map DeclarationRecord.kind with
      _ | ⟨_ | ⟨arity, returns, definition⟩⟩
    · exact matched.declareVariable ..
    · exact matched.report ..
    · exact matched.report ..

/-! ## Functions -/

/-- What is continued by the new numbers. -/
def renumberEarlier (renumbering : Renumbering) (earlier : EarlierFunction) : EarlierFunction :=
  { earlier with definition := earlier.definition.map renumbering.transaction }

theorem earlierFunction_eq (matched : Matches renumbering left right) (name : String)
    (arity : Nat) (stated : Option ReturnKind) (hasBody : Bool) :
    earlierFunction left.table name arity stated hasBody =
      (earlierFunction right.table name arity stated hasBody).map
        (Option.map (renumberEarlier renumbering)) := by
  unfold earlierFunction
  rw [matched.table.lookup_kind_eq]
  rcases (right.table.lookup name).map DeclarationRecord.kind with
    _ | ⟨_ | ⟨earlierArity, returns, definition⟩⟩
  · rfl
  · rfl
  · simp only [Option.map_some, Renumbering.kind, Option.isSome_map]
    split
    · rfl
    · split
      · rfl
      · rfl

theorem defineFunction (matched : Matches renumbering left right) (owner : TransactionId)
    (id : DeclarationId) (earlier : Option EarlierFunction) (type : TypeName) (name : String)
    (parameters : List Parameter) (body : List Statement) (span : Span) :
    Matches renumbering
      (left.defineFunction (renumbering.declaration id)
        (earlier.map (renumberEarlier renumbering)) (renumbering.transaction owner) type name
        parameters body span)
      (right.defineFunction id earlier owner type name parameters body span) := by
  have agree := matched.table.agreesWith
  unfold Analysis.defineFunction
  simp only [lowerBody_congr agree]
  generalize lowerBody right.table (statedReturn type) parameters body = lowered
  have refined : Matches renumbering
      { left with
        table :=
          if decide (type = TypeName.auto) then
            left.table.refine (renumbering.declaration id)
              (.function parameters.length (lowered.value.2.returns.getD .void)
                (some (renumbering.transaction owner)))
          else left.table }
      { right with
        table :=
          if decide (type = TypeName.auto) then
            right.table.refine id
              (.function parameters.length (lowered.value.2.returns.getD .void) (some owner))
          else right.table } := by
    split
    · exact matched.refine id
        (.function parameters.length (lowered.value.2.returns.getD .void) (some owner))
    · exact matched
  cases earlier with
  | none => exact (refined.addReports _).addFunction ⟨name, id, _, _, _, _⟩
  | some earlier => exact (refined.addReports _).addFunction ⟨name, id, _, _, _, _⟩

theorem checkFunction (matched : Matches renumbering left right) (type : TypeName)
    (name : String) (parameters : List Parameter) (body : Option (List Statement))
    (span : Span) :
    Matches renumbering
      (left.checkFunction (renumbering.transaction owner) type name parameters body span)
      (right.checkFunction owner type name parameters body span) := by
  unfold Analysis.checkFunction
  split
  · exact matched.report ..
  · dsimp only
    rw [matched.earlierFunction_eq]
    cases earlierFunction right.table name parameters.length (statedReturn type) body.isSome with
    | error problem => exact matched.report ..
    | ok earlier =>
      simp only [Except.map]
      -- The declared kind names the body by its renumbered transaction.
      have sameKind : ∀ (arity : Nat) (returns : ReturnKind),
          DeclarationKind.function arity returns
            (if body.isSome then some (renumbering.transaction owner)
              else (earlier.map (renumberEarlier renumbering)).bind EarlierFunction.definition) =
          renumbering.kind (.function arity returns
            (if body.isSome then some owner else earlier.bind EarlierFunction.definition)) := by
        intro arity returns
        cases body <;> cases earlier <;> rfl
      rw [sameKind]
      cases body with
      | none => exact matched.declare ..
      | some body =>
        have declared := matched.declare owner name
          (.function parameters.length ((statedReturn type).getD .int) (some owner)) span
        have sameId := matched.declare_id owner name
          (.function parameters.length ((statedReturn type).getD .int) (some owner)) span
        have defined := declared.defineFunction owner
          (right.declare owner name
            (.function parameters.length ((statedReturn type).getD .int) (some owner)) span).1
          earlier type name parameters body span
        rw [← sameId] at defined
        exact defined

/-! ## Items -/

theorem checkItem (matched : Matches renumbering left right) (item : Item) :
    Matches renumbering (Analysis.checkItem (renumbering.transaction owner) left item)
      (Analysis.checkItem owner right item) := by
  cases item with
  | «variable» type name initial span => exact matched.checkVariable ..
  | function returns name parameters body isExternal span => exact matched.checkFunction ..

theorem foldl_checkItem (items : List Item) (matched : Matches renumbering left right) :
    Matches renumbering
      (items.foldl (Analysis.checkItem (renumbering.transaction owner)) left)
      (items.foldl (Analysis.checkItem owner) right) := by
  induction items generalizing left right with
  | nil => exact matched
  | cons head tail inductionHypothesis => exact inductionHypothesis (matched.checkItem head)

theorem hasErrors_eq (matched : Matches renumbering left right) :
    left.hasErrors = right.hasErrors := by
  rw [hasErrors, hasErrors, matched.diagnostics]

end Matches

/-- The same items are analysed alike against matching tables. -/
theorem analyze_matches {renumbering : Renumbering} {left right : DeclarationTable}
    (matched : left.Matches renumbering right) (items : List Item) (owner : TransactionId) :
    Matches renumbering (analyze items left (renumbering.transaction owner))
      (analyze items right owner) :=
  (start_matches matched owner).foldl_checkItem items

end Analysis

end IncrementalC
