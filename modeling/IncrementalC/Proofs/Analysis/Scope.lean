import IncrementalC.Analysis.Program
import IncrementalC.Proofs.Lowering.Storage

/-!
Contract: how lowering changes the scope.

Owns: that slots stay separate, are never freed, and that a block leaves the frames
around it alone.

Does not own: the code that uses the slots.
-/

namespace IncrementalC.Analysis

open Syntax (Expression Statement Parameter)

/-- `after` continues `before` in the same block. -/
structure Scope.Grows (before after : Scope) : Prop where
  separate : before.frames.Separate before.nextSlot → after.frames.Separate after.nextSlot
  nextSlot : before.nextSlot ≤ after.nextSlot
  outer : after.frames.tail = before.frames.tail

namespace Scope.Grows

theorem refl (scope : Scope) : Scope.Grows scope scope := ⟨id, Nat.le_refl _, rfl⟩

theorem trans {before between after : Scope} (first : Scope.Grows before between)
    (second : Scope.Grows between after) : Scope.Grows before after :=
  ⟨second.separate ∘ first.separate, Nat.le_trans first.nextSlot second.nextSlot,
    second.outer.trans first.outer⟩

/-- Leaving a block keeps the slots that it used. -/
theorem leaveTo {scope inner : Scope} (block : Scope.Grows scope.enter inner) :
    Scope.Grows scope (inner.leaveTo scope) where
  separate separate := separate.mono block.nextSlot
  nextSlot := block.nextSlot
  outer := rfl

end Scope.Grows

theorem separate_enter {scope : Scope} (separate : scope.frames.Separate scope.nextSlot) :
    scope.enter.frames.Separate scope.enter.nextSlot := by
  refine ⟨?_, ?_⟩ <;> simp only [Scope.enter, slots_cons, List.map_nil, List.nil_append]
  · exact separate.distinct
  · exact separate.below

theorem bind_grows (scope : Scope) (name : String) : scope.Grows (scope.bind name).2 where
  separate separate := by
    cases frames : scope.frames with
    | nil =>
      rw [frames] at separate
      simp only [Scope.bind, frames]
      exact separate.mono (Nat.le_succ _)
    | cons frame outer =>
      rw [frames] at separate
      obtain ⟨distinct, below⟩ := separate
      have slots : Frames.slots (((name, scope.nextSlot) :: frame) :: outer) =
          scope.nextSlot :: Frames.slots (frame :: outer) := by
        simp only [slots_cons, List.map_cons, List.cons_append]
      simp only [Scope.bind, frames]
      refine ⟨?_, ?_⟩ <;> rw [slots]
      · exact List.nodup_cons.mpr ⟨fun member => Nat.lt_irrefl _ (below _ member), distinct⟩
      · intro slot member
        rcases List.mem_cons.mp member with rfl | old
        · exact Nat.lt_succ_self _
        · exact Nat.lt_succ_of_lt (below slot old)
  nextSlot := Nat.le_succ _
  outer := by
    unfold Scope.bind
    cases scope.frames <;> rfl

theorem bindParameters_grows (table : DeclarationTable) (parameters : List Parameter)
    (scope : Scope) : scope.Grows (bindParameters table scope parameters).value := by
  induction parameters generalizing scope with
  | nil => exact Scope.Grows.refl scope
  | cons head tail inductionHypothesis =>
    simp only [bindParameters, Checked.value_bind]
    exact (bind_grows scope head.name).trans (inductionHypothesis _)

theorem lowerReturn_grows (table : DeclarationTable) (scope : Scope)
    (value : Option Expression) (span : Span) :
    scope.Grows (lowerReturn table scope value span).value.2 := by
  cases value with
  | none =>
    simp only [lowerReturn, Checked.value_bind, Checked.value_pure]
    split
    · exact ⟨id, Nat.le_refl _, rfl⟩
    · exact Scope.Grows.refl scope
    · exact Scope.Grows.refl scope
  | some value =>
    simp only [lowerReturn, Checked.value_bind]
    split
    · exact ⟨id, Nat.le_refl _, rfl⟩
    · exact Scope.Grows.refl scope
    · exact Scope.Grows.refl scope

theorem lowerLocal_grows (table : DeclarationTable) (scope : Scope) (type : Syntax.TypeName)
    (name : String) (initial : Option Expression) (span : Span) :
    scope.Grows (lowerLocal table scope type name initial span).value.2 := by
  cases initial with
  | none => exact bind_grows scope name
  | some initial => exact bind_grows scope name

mutual

theorem lowerStatement_grows (table : DeclarationTable) :
    ∀ (statement : Statement) (scope : Scope),
      scope.Grows (lowerStatement table scope statement).value.2
  | .declare type name initial span, scope => by
    simp only [lowerStatement, Checked.value_bind, Checked.value_pure]
    exact lowerLocal_grows table scope type name initial span
  | .evaluate value, scope => by
    simp only [lowerStatement, Checked.value_bind, Checked.value_pure]
    exact Scope.Grows.refl scope
  | .choose condition whenTrue whenFalse, scope => by
    simp only [lowerStatement, Checked.value_bind, Checked.value_pure]
    exact (lowerBlock_grows table whenTrue scope.enter).leaveTo.trans
      (lowerBlock_grows table whenFalse _).leaveTo
  | .loop condition body, scope => by
    simp only [lowerStatement, Checked.value_bind, Checked.value_pure]
    exact (lowerBlock_grows table body scope.enter).leaveTo
  | .leave value span, scope => by
    simp only [lowerStatement, Checked.value_bind, Checked.value_pure]
    exact lowerReturn_grows table scope value span
  | .block body, scope => by
    simp only [lowerStatement, Checked.value_bind, Checked.value_pure]
    exact (lowerBlock_grows table body scope.enter).leaveTo
  | .empty, scope => by
    simp only [lowerStatement, Checked.value_pure]
    exact Scope.Grows.refl scope

theorem lowerBlock_grows (table : DeclarationTable) :
    ∀ (statements : List Statement) (scope : Scope),
      scope.Grows (lowerBlock table scope statements).value.2
  | [], scope => by
    simp only [lowerBlock, Checked.value_pure]
    exact Scope.Grows.refl scope
  | head :: tail, scope => by
    simp only [lowerBlock, Checked.value_bind, Checked.value_pure]
    exact (lowerStatement_grows table head scope).trans (lowerBlock_grows table tail _)

end

end IncrementalC.Analysis
