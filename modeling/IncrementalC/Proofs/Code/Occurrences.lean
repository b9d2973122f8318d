import IncrementalC.Proofs.Engine.Binding

/-!
Contract: where names stand in lowered code.

A name stands in an expression that uses it, however deep the expression is in others, and in
a statement whose expressions or inner statements it stands in. The names that are collected
from code are exactly these.

Owns: the parts of expressions and statements, the uses that stand in them, and that the
names of these uses are the collected ones.

Does not own: which uses a run makes.
-/

namespace IncrementalC.Code

/-! ## Parts -/

/-- An expression that stands directly in another one. -/
inductive Expression.Child : Expression → Expression → Prop where
  | assignSlot {slot : Nat} {value : Expression} : Child value (.assignSlot slot value)
  | assignGlobal {name : String} {value : Expression} : Child value (.assignGlobal name value)
  | argument {callee : String} {arguments : List Expression} {value : Expression}
      (member : value ∈ arguments) : Child value (.call callee arguments)
  | atExit {function : String} {argument : Expression} : Child argument (.atExit function argument)
  | unary {operator : UnaryOperator} {operand : Expression} :
      Child operand (.unary operator operand)
  | binaryLeft {operator : StrictOperator} {left right : Expression} :
      Child left (.binary operator left right)
  | binaryRight {operator : StrictOperator} {left right : Expression} :
      Child right (.binary operator left right)
  | andLeft {left right : Expression} : Child left (.and left right)
  | andRight {left right : Expression} : Child right (.and left right)
  | orLeft {left right : Expression} : Child left (.or left right)
  | orRight {left right : Expression} : Child right (.or left right)

/-- The use that is made by an expression itself. -/
def Expression.ownUse? : Expression → Option Use
  | .global name => some (.read name)
  | .assignGlobal name _ => some (.write name)
  | .call callee _ => some (.call callee)
  | .atExit function _ => some (.register function)
  | .integer _ | .slot _ | .assignSlot _ _ | .unary _ _ | .binary _ _ _ | .and _ _ | .or _ _ => none

/-- A use is made by an expression or somewhere in it. -/
inductive Expression.Contains (use : Use) : Expression → Prop where
  | own {expression : Expression} (made : expression.ownUse? = some use) : Contains use expression
  | inside {part whole : Expression} (child : part.Child whole) (contained : Contains use part) :
      Contains use whole

/-- An expression of a statement, apart from those of statements in it. -/
inductive Statement.Has : Statement → Expression → Prop where
  | evaluate {value : Expression} : Has (.evaluate value) value
  | store {slot : Nat} {value : Expression} : Has (.store slot value) value
  | choose {condition : Expression} {whenTrue whenFalse : List Statement} :
      Has (.choose condition whenTrue whenFalse) condition
  | loop {condition : Expression} {body : List Statement} : Has (.loop condition body) condition
  | leave {value : Expression} : Has (.leave (some value)) value

/-- Statements that stand directly in a statement. -/
inductive Statement.Block : Statement → List Statement → Prop where
  | whenTrue {condition : Expression} {whenTrue whenFalse : List Statement} :
      Block (.choose condition whenTrue whenFalse) whenTrue
  | whenFalse {condition : Expression} {whenTrue whenFalse : List Statement} :
      Block (.choose condition whenTrue whenFalse) whenFalse
  | body {condition : Expression} {body : List Statement} : Block (.loop condition body) body

/-- A use is made somewhere in statements. -/
inductive Statement.ListContains (use : Use) : List Statement → Prop where
  | here {statement : Statement} {value : Expression} {statements : List Statement}
      (member : statement ∈ statements) (has : statement.Has value)
      (contained : value.Contains use) : ListContains use statements
  | inside {statement : Statement} {block statements : List Statement}
      (member : statement ∈ statements) (inner : statement.Block block)
      (contained : ListContains use block) : ListContains use statements

/-! ## Uses -/

theorem Expression.mem_listUses_iff {use : Use} {expressions : List Expression} :
    use ∈ Expression.listUses expressions ↔ ∃ value ∈ expressions, use ∈ value.uses := by
  induction expressions with
  | nil => simp [Expression.listUses]
  | cons head tail inductionHypothesis => simp [Expression.listUses, inductionHypothesis]

theorem Statement.mem_listUses_iff {use : Use} {statements : List Statement} :
    use ∈ Statement.listUses statements ↔ ∃ statement ∈ statements, use ∈ statement.uses := by
  induction statements with
  | nil => simp [Statement.listUses]
  | cons head tail inductionHypothesis => simp [Statement.listUses, inductionHypothesis]

theorem Expression.Child.uses_subset {part whole : Expression} (child : part.Child whole)
    {use : Use} (made : use ∈ part.uses) : use ∈ whole.uses := by
  cases child with
  | assignSlot | unary => exact made
  | assignGlobal | atExit => exact List.mem_cons_of_mem _ made
  | argument member =>
    exact List.mem_cons_of_mem _ (Expression.mem_listUses_iff.mpr ⟨part, member, made⟩)
  | binaryLeft | andLeft | orLeft => exact List.mem_append_left _ made
  | binaryRight | andRight | orRight => exact List.mem_append_right _ made

theorem Expression.mem_uses_of_own {expression : Expression} {use : Use}
    (made : expression.ownUse? = some use) : use ∈ expression.uses := by
  cases expression <;> cases made <;> exact List.mem_cons_self

mutual

theorem Expression.contains_of_mem {use : Use} :
    ∀ expression : Expression, use ∈ expression.uses → expression.Contains use
  | .integer _, made | .slot _, made => absurd made List.not_mem_nil
  | .global name, made => .own (congrArg some (List.mem_singleton.mp made).symm)
  | .assignSlot _ value, made => .inside .assignSlot (Expression.contains_of_mem value made)
  | .assignGlobal name value, made =>
    match List.mem_cons.mp made with
    | .inl same => .own (congrArg some same.symm)
    | .inr inValue => .inside .assignGlobal (Expression.contains_of_mem value inValue)
  | .call callee arguments, made =>
    match List.mem_cons.mp made with
    | .inl same => .own (congrArg some same.symm)
    | .inr inArguments => by
      obtain ⟨value, member, contained⟩ := Expression.exists_contains_of_mem arguments inArguments
      exact .inside (.argument member) contained
  | .atExit function argument, made =>
    match List.mem_cons.mp made with
    | .inl same => .own (congrArg some same.symm)
    | .inr inArgument => .inside .atExit (Expression.contains_of_mem argument inArgument)
  | .unary _ operand, made => .inside .unary (Expression.contains_of_mem operand made)
  | .binary _ left right, made =>
    match List.mem_append.mp made with
    | .inl inLeft => .inside .binaryLeft (Expression.contains_of_mem left inLeft)
    | .inr inRight => .inside .binaryRight (Expression.contains_of_mem right inRight)
  | .and left right, made =>
    match List.mem_append.mp made with
    | .inl inLeft => .inside .andLeft (Expression.contains_of_mem left inLeft)
    | .inr inRight => .inside .andRight (Expression.contains_of_mem right inRight)
  | .or left right, made =>
    match List.mem_append.mp made with
    | .inl inLeft => .inside .orLeft (Expression.contains_of_mem left inLeft)
    | .inr inRight => .inside .orRight (Expression.contains_of_mem right inRight)

theorem Expression.exists_contains_of_mem {use : Use} :
    ∀ expressions : List Expression, use ∈ Expression.listUses expressions →
      ∃ value ∈ expressions, value.Contains use
  | [], made => absurd made List.not_mem_nil
  | head :: tail, made =>
    match List.mem_append.mp made with
    | .inl inHead => ⟨head, List.mem_cons_self, Expression.contains_of_mem head inHead⟩
    | .inr inTail => by
      obtain ⟨value, member, contained⟩ := Expression.exists_contains_of_mem tail inTail
      exact ⟨value, List.mem_cons_of_mem head member, contained⟩

end

/-- The uses that are listed are those that stand in the expression. -/
theorem Expression.contains_iff {use : Use} {expression : Expression} :
    expression.Contains use ↔ use ∈ expression.uses := by
  constructor
  · intro contains
    induction contains with
    | own made => exact Expression.mem_uses_of_own made
    | inside child _ inductionHypothesis => exact child.uses_subset inductionHypothesis
  · exact Expression.contains_of_mem expression

theorem Statement.Has.uses_subset {statement : Statement} {value : Expression}
    (has : statement.Has value) {use : Use} (made : use ∈ value.uses) : use ∈ statement.uses := by
  cases has with
  | evaluate | store | leave => exact made
  | choose => exact List.mem_append_left _ (List.mem_append_left _ made)
  | loop => exact List.mem_append_left _ made

theorem Statement.Block.uses_subset {statement : Statement} {block : List Statement}
    (inner : statement.Block block) {use : Use} (made : use ∈ Statement.listUses block) :
    use ∈ statement.uses := by
  cases inner with
  | whenTrue => exact List.mem_append_left _ (List.mem_append_right _ made)
  | whenFalse => exact List.mem_append_right _ made
  | body => exact List.mem_append_right _ made

mutual

theorem Statement.listContains_of_mem_uses {use : Use} {statements : List Statement} :
    ∀ statement ∈ statements, use ∈ statement.uses → Statement.ListContains use statements
  | .evaluate _, member, made => .here member .evaluate (Expression.contains_iff.mpr made)
  | .store _ _, member, made => .here member .store (Expression.contains_iff.mpr made)
  | .choose _ whenTrue whenFalse, member, made =>
    match List.mem_append.mp made with
    | .inl before =>
      match List.mem_append.mp before with
      | .inl inCondition => .here member .choose (Expression.contains_iff.mpr inCondition)
      | .inr inTrue => .inside member .whenTrue (Statement.listContains_of_mem whenTrue inTrue)
    | .inr inFalse => .inside member .whenFalse (Statement.listContains_of_mem whenFalse inFalse)
  | .loop _ body, member, made =>
    match List.mem_append.mp made with
    | .inl inCondition => .here member .loop (Expression.contains_iff.mpr inCondition)
    | .inr inBody => .inside member .body (Statement.listContains_of_mem body inBody)
  | .leave none, _, made => absurd made List.not_mem_nil
  | .leave (some _), member, made => .here member .leave (Expression.contains_iff.mpr made)

theorem Statement.listContains_of_mem {use : Use} :
    ∀ statements : List Statement, use ∈ Statement.listUses statements →
      Statement.ListContains use statements
  | [], made => absurd made List.not_mem_nil
  | head :: tail, made =>
    match List.mem_append.mp made with
    | .inl inHead => Statement.listContains_of_mem_uses head List.mem_cons_self inHead
    | .inr inTail =>
      match Statement.listContains_of_mem tail inTail with
      | .here member has contained => .here (List.mem_cons_of_mem head member) has contained
      | .inside member inner contained => .inside (List.mem_cons_of_mem head member) inner contained

end

/-- The uses that are listed are those that stand in the statements. -/
theorem Statement.listContains_iff {use : Use} {statements : List Statement} :
    Statement.ListContains use statements ↔ use ∈ Statement.listUses statements := by
  constructor
  · intro contains
    induction contains with
    | here member has contained =>
      have made := has.uses_subset (Expression.contains_iff.mp contained)
      exact Statement.mem_listUses_iff.mpr ⟨_, member, made⟩
    | inside member inner _ inductionHypothesis =>
      exact Statement.mem_listUses_iff.mpr ⟨_, member, inner.uses_subset inductionHypothesis⟩
  · exact Statement.listContains_of_mem statements

/-! ## Collected names -/

/-- The names that are collected from an expression are those of the uses that stand in it. -/
theorem Expression.mem_references_iff {expression : Expression} {name : String} :
    name ∈ NameSet.ofNames expression.names ↔
      ∃ use, expression.Contains use ∧ use.name = name := by
  rw [NameSet.mem_ofNames, Expression.names_eq, List.mem_map]
  simp only [Expression.contains_iff]

theorem Function.mem_references_iff {function : Function} {name : String} :
    name ∈ function.references ↔
      ∃ use, Statement.ListContains use function.body ∧ use.name = name := by
  unfold Function.references
  rw [NameSet.mem_ofNames, Statement.listNames_eq, List.mem_map]
  simp only [Statement.listContains_iff]

/-- An initializer writes its variable, and makes the uses of its value. -/
theorem Initializer.mem_references_iff {initializer : Initializer} {name : String} :
    name ∈ initializer.references ↔
      ∃ use : Use, (use = .write initializer.global ∨ initializer.value.Contains use) ∧
        use.name = name := by
  unfold Initializer.references
  rw [NameSet.mem_ofNames, List.mem_cons, ← NameSet.mem_ofNames, Expression.mem_references_iff]
  constructor
  · rintro (rfl | ⟨use, contained, named⟩)
    · exact ⟨.write initializer.global, .inl rfl, rfl⟩
    · exact ⟨use, .inr contained, named⟩
  · rintro ⟨use, rfl | contained, named⟩
    · exact .inl named.symm
    · exact .inr ⟨use, contained, named⟩

end IncrementalC.Code
