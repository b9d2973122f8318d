import IncrementalC.Proofs.Analysis.Scope
import IncrementalC.Proofs.Machine.Storage

/-!
Contract: lowered code stays inside its frame.

An expression uses the slots of visible variables, which are below the next free slot. A
body uses slots below the one that is free behind it, and that is the size of the frame.
Outside functions no variable has a slot.

Owns: the slots of lowered expressions and statements, and units that stay inside their
frames.

Does not own: running code.
-/

namespace IncrementalC.Analysis

open Syntax (Expression Statement Item Parameter TypeName)

/-! ## Expressions -/

section

variable {table : DeclarationTable} {frames : Frames}

theorem slots_lowerUnary (operator : UnaryOperator) (operand : Code.Expression) :
    (lowerUnary operator operand).slots = operand.slots := by
  cases operator <;> cases operand <;> rfl

theorem slots_lowerBinary (operator : Syntax.BinaryOperator) (left right : Code.Expression) :
    (lowerBinary operator left right).slots = left.slots ++ right.slots := by
  cases operator <;> rfl

/-- Without an argument zero is passed. -/
theorem slots_headD (arguments : List Code.Expression) :
    (arguments.headD (.integer 0)).slots ⊆ Code.Expression.listSlots arguments := by
  cases arguments with
  | nil => exact List.nil_subset _
  | cons head tail => exact List.subset_append_left _ _

theorem slots_zero : zero.2.slots ⊆ frames.slots := List.nil_subset _

theorem slots_lowerName (name : String) (span : Span) :
    (lowerName table frames name span).value.2.slots ⊆ frames.slots := by
  unfold lowerName
  cases found : frames.slot? name with
  | some slot =>
    rintro _ member
    obtain rfl := List.mem_singleton.mp member
    exact mem_slots_of_slot? found
  | none =>
    dsimp only
    split
    · exact List.nil_subset _
    · exact slots_zero
    · exact slots_zero

theorem slots_lowerAssignment (target : Expression) {value : Code.Expression}
    (visible : value.slots ⊆ frames.slots) :
    (lowerAssignment table frames target value).value.2.slots ⊆ frames.slots := by
  cases target with
  | name name span =>
    simp only [lowerAssignment]
    cases found : frames.slot? name with
    | some slot => exact List.cons_subset.mpr ⟨mem_slots_of_slot? found, visible⟩
    | none =>
      dsimp only
      split
      · exact visible
      · exact slots_zero
      · exact slots_zero
  | _ => exact slots_zero

mutual

theorem slots_lowerExpression :
    ∀ expression : Expression,
      (lowerExpression table frames expression).value.2.slots ⊆ frames.slots
  | .integer value span => List.nil_subset _
  | .name name span => slots_lowerName name span
  | .assign target value span => by
    simp only [lowerExpression, Checked.value_bind]
    exact slots_lowerAssignment target (slots_lowerExpression value)
  | .call callee [] span => by
    simp only [lowerExpression]
    split
    · exact slots_zero
    · exact List.nil_subset _
    · exact slots_zero
  | .call callee (target :: rest) span => by
    simp only [lowerExpression]
    split
    · exact slots_zero
    · exact slots_lowerArguments (target :: rest)
    · split
      · simp only [Checked.value_bind]
        split
        · exact slots_zero
        · exact List.Subset.trans (slots_headD _) (slots_lowerArguments rest)
      · exact slots_zero
  | .unary operator operand span => by
    simp only [lowerExpression, Checked.value_bind, Checked.value_pure, slots_lowerUnary]
    exact slots_lowerExpression operand
  | .binary operator left right span => by
    simp only [lowerExpression, Checked.value_bind, Checked.value_pure, slots_lowerBinary]
    exact List.append_subset.mpr ⟨slots_lowerExpression left, slots_lowerExpression right⟩

theorem slots_lowerArguments :
    ∀ arguments : List Expression,
      Code.Expression.listSlots (lowerArguments table frames arguments).value ⊆ frames.slots
  | [] => List.nil_subset _
  | head :: tail => by
    simp only [lowerArguments, Checked.value_bind, Checked.value_pure]
    exact List.append_subset.mpr ⟨slots_lowerExpression head, slots_lowerArguments tail⟩

end

theorem slots_lowerInt (expression : Expression) :
    (lowerInt table frames expression).value.slots ⊆ frames.slots :=
  slots_lowerExpression expression

end

/-! ## Statements -/

/-- The slots are taken in the scope. -/
def Scope.Takes (scope : Scope) (slots : List Nat) : Prop := ∀ slot ∈ slots, slot < scope.nextSlot

section

variable {table : DeclarationTable} {scope : Scope}

theorem takes_append {first second : List Nat} :
    scope.Takes (first ++ second) ↔ scope.Takes first ∧ scope.Takes second :=
  List.forall_mem_append

theorem takes_nil : scope.Takes [] := fun _ member => absurd member List.not_mem_nil

theorem Scope.Takes.mono {slots : List Nat} {later : Scope} (takes : scope.Takes slots)
    (le : scope.nextSlot ≤ later.nextSlot) : later.Takes slots :=
  fun slot member => Nat.lt_of_lt_of_le (takes slot member) le

/-- The slots of visible variables are taken. -/
theorem takes_visible (separate : scope.frames.Separate scope.nextSlot) {slots : List Nat}
    (visible : slots ⊆ scope.frames.slots) : scope.Takes slots :=
  fun slot member => separate.below slot (visible member)

theorem takes_lowerReturn (separate : scope.frames.Separate scope.nextSlot)
    (value : Option Expression) (span : Span) :
    (lowerReturn table scope value span).value.2.Takes
      (lowerReturn table scope value span).value.1.slots := by
  apply Scope.Takes.mono _ (lowerReturn_grows table scope value span).nextSlot
  cases value with
  | none =>
    simp only [lowerReturn, Checked.value_bind]
    split <;> exact takes_nil
  | some value =>
    have taken : scope.Takes (lowerExpression table scope.frames value).value.2.slots :=
      takes_visible separate (slots_lowerExpression value)
    simp only [lowerReturn, Checked.value_bind]
    split <;> exact taken

theorem takes_lowerLocal (separate : scope.frames.Separate scope.nextSlot) (type : TypeName)
    (name : String) (initial : Option Expression) (span : Span) :
    (lowerLocal table scope type name initial span).value.2.Takes
      (lowerLocal table scope type name initial span).value.1.slots := by
  have stores : ∀ value : Code.Expression, value.slots ⊆ scope.frames.slots →
      (scope.bind name).2.Takes (scope.nextSlot :: value.slots) := by
    intro value visible
    refine List.forall_mem_cons.mpr ⟨Nat.lt_succ_self _, ?_⟩
    exact (takes_visible separate visible).mono (Nat.le_succ _)
  cases initial with
  | none => exact stores (.integer 0) (List.nil_subset _)
  | some initial => exact stores _ (slots_lowerInt initial)

mutual

/-- The slots of a statement are taken behind it. -/
theorem takes_lowerStatement :
    ∀ (statement : Statement) (scope : Scope), scope.frames.Separate scope.nextSlot →
      (lowerStatement table scope statement).value.2.Takes
        (Code.Statement.listSlots (lowerStatement table scope statement).value.1)
  | .declare type name initial span, scope, separate => by
    simp only [lowerStatement, Checked.value_bind, Checked.value_pure,
      Code.Statement.listSlots_singleton]
    exact takes_lowerLocal separate type name initial span
  | .evaluate value, scope, separate => by
    simp only [lowerStatement, Checked.value_bind, Checked.value_pure,
      Code.Statement.listSlots_singleton]
    exact takes_visible separate (slots_lowerExpression value)
  | .choose condition whenTrue whenFalse, scope, separate => by
    simp only [lowerStatement, Checked.value_bind, Checked.value_pure,
      Code.Statement.listSlots_singleton]
    have growsTrue := (lowerBlock_grows table whenTrue scope.enter).leaveTo
    have between := growsTrue.separate separate
    have growsFalse := (lowerBlock_grows table whenFalse (Scope.enter
      ((lowerBlock table scope.enter whenTrue).value.2.leaveTo scope))).leaveTo
    refine takes_append.mpr ⟨takes_append.mpr ⟨?_, ?_⟩, ?_⟩
    · have taken : scope.Takes (lowerInt table scope.frames condition).value.slots :=
        takes_visible separate (slots_lowerInt condition)
      exact (taken.mono growsTrue.nextSlot).mono growsFalse.nextSlot
    · exact (takes_lowerBlock whenTrue scope.enter (separate_enter separate)).mono
        growsFalse.nextSlot
    · exact takes_lowerBlock whenFalse _ (separate_enter between)
  | .loop condition body, scope, separate => by
    simp only [lowerStatement, Checked.value_bind, Checked.value_pure,
      Code.Statement.listSlots_singleton]
    have grows := (lowerBlock_grows table body scope.enter).leaveTo
    have taken : scope.Takes (lowerInt table scope.frames condition).value.slots :=
      takes_visible separate (slots_lowerInt condition)
    exact takes_append.mpr ⟨taken.mono grows.nextSlot,
      takes_lowerBlock body scope.enter (separate_enter separate)⟩
  | .leave value span, scope, separate => by
    simp only [lowerStatement, Checked.value_bind, Checked.value_pure,
      Code.Statement.listSlots_singleton]
    exact takes_lowerReturn separate value span
  | .block body, scope, separate => by
    simp only [lowerStatement, Checked.value_bind, Checked.value_pure]
    exact takes_lowerBlock body scope.enter (separate_enter separate)
  | .empty, scope, separate => by
    simp only [lowerStatement, Checked.value_pure]
    exact takes_nil

theorem takes_lowerBlock :
    ∀ (statements : List Statement) (scope : Scope), scope.frames.Separate scope.nextSlot →
      (lowerBlock table scope statements).value.2.Takes
        (Code.Statement.listSlots (lowerBlock table scope statements).value.1)
  | [], scope, separate => by
    simp only [lowerBlock, Checked.value_pure]
    exact takes_nil
  | head :: tail, scope, separate => by
    simp only [lowerBlock, Checked.value_bind, Checked.value_pure,
      Code.Statement.listSlots_append]
    have headGrows := lowerStatement_grows table head scope
    have tailGrows := lowerBlock_grows table tail (lowerStatement table scope head).value.2
    refine takes_append.mpr ⟨?_, ?_⟩
    · exact (takes_lowerStatement head scope separate).mono tailGrows.nextSlot
    · exact takes_lowerBlock tail _ (headGrows.separate separate)

end

theorem takes_lowerBody (stated : Option ReturnKind) (parameters : List Parameter)
    (body : List Statement) :
    (lowerBody table stated parameters body).value.2.Takes
      (Code.Statement.listSlots (lowerBody table stated parameters body).value.1) := by
  have grows := bindParameters_grows table parameters (.ofFunction stated)
  have separate := grows.separate ⟨List.nodup_nil, fun _ member => absurd member List.not_mem_nil⟩
  exact takes_lowerBlock body _ (separate_enter separate)

end

/-! ## Units -/

section

variable {analysis : Analysis} {owner : TransactionId}

theorem framed_addFunction (framed : analysis.unit.Framed) {function : Code.Function}
    (inside : ∀ slot ∈ Code.Statement.listSlots function.body, slot < function.room) :
    (analysis.addFunction function).unit.Framed where
  functions := by
    intro other member
    rcases List.mem_append.mp member with old | new
    · exact framed.functions other old
    · rw [List.mem_singleton.mp new]
      exact fun slot used => .inl (inside slot used)
  initializers := framed.initializers

theorem framed_addGlobal (framed : analysis.unit.Framed) (name : String)
    (declaration : DeclarationId) {value : Option Code.Expression}
    (without : ∀ initial ∈ value, initial.slots = []) :
    (analysis.addGlobal name declaration value).unit.Framed where
  functions := framed.functions
  initializers := by
    intro initializer member
    rcases List.mem_append.mp member with old | new
    · exact framed.initializers initializer old
    · split at new
      · next initial _ =>
        rw [List.mem_singleton.mp new, without initial rfl]
        exact fun _ absent => absurd absent List.not_mem_nil
      · exact absurd new List.not_mem_nil

theorem framed_declareVariable (framed : analysis.unit.Framed) (name : String)
    (initial : Option Expression) (span : Span) :
    (analysis.declareVariable owner name initial span).unit.Framed := by
  unfold declareVariable
  apply framed_addGlobal
  · exact framed
  · intro lowered same
    cases initial with
    | none => cases same
    | some initial =>
      obtain rfl := Option.some.inj same
      -- No variable is visible outside functions.
      have visible : (lowerInt analysis.table [] initial).value.slots ⊆ Frames.slots [] :=
        slots_lowerInt initial
      exact List.eq_nil_of_subset_nil visible

theorem framed_checkVariable (framed : analysis.unit.Framed) (type : TypeName) (name : String)
    (initial : Option Expression) (span : Span) :
    (analysis.checkVariable owner type name initial span).unit.Framed := by
  unfold checkVariable
  split
  · exact framed
  · exact framed
  · split
    · exact framed
    · exact framed
    · exact framed_declareVariable framed name initial span

theorem framed_checkFunction (framed : analysis.unit.Framed) (type : TypeName) (name : String)
    (parameters : List Parameter) (body : Option (List Statement)) (span : Span) :
    (analysis.checkFunction owner type name parameters body span).unit.Framed := by
  unfold checkFunction
  split
  · exact framed
  · dsimp only
    split
    · exact framed
    · cases body with
      | none => exact framed
      | some body =>
        apply framed_addFunction
        · exact framed
        · intro slot used
          exact Nat.lt_of_lt_of_le (takes_lowerBody _ parameters body slot used)
            (Nat.le_max_left _ _)

theorem framed_checkItem (framed : analysis.unit.Framed) (item : Item) :
    (checkItem owner analysis item).unit.Framed := by
  cases item with
  | «variable» type name initial span => exact framed_checkVariable framed type name initial span
  | function returns name parameters body isExternal span =>
    exact framed_checkFunction framed returns name parameters body span

/-- The code of a program stays inside its frames. -/
theorem framed_analyze (items : List Item) (table : DeclarationTable) (owner : TransactionId) :
    (analyze items table owner).unit.Framed := by
  have checks : ∀ analysis : Analysis, analysis.unit.Framed →
      (items.foldl (checkItem owner) analysis).unit.Framed := by
    induction items with
    | nil => exact fun _ framed => framed
    | cons head tail inductionHypothesis =>
      exact fun analysis framed => inductionHypothesis _ (framed_checkItem framed head)
  exact checks _ (CodeUnit.framed_empty _)

end

end IncrementalC.Analysis
