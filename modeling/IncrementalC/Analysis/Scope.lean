import IncrementalC.Declaration.Table

/-!
Contract: the local variables in scope inside a function.

Every local variable has a slot of its own for the whole function, so that leaving a
block frees no slot. The innermost frame of names comes first.

Owns: frames of names, the next free slot, and the return kind deduced so far.

Does not own: global names.
-/

namespace IncrementalC.Analysis

/-- The names of nested blocks with their slots, innermost block first and newest
name first. -/
abbrev Frames : Type := List (List (String × Nat))

/-- The slot of a name in one block. -/
def slotIn? (frame : List (String × Nat)) (name : String) : Option Nat :=
  (frame.find? fun entry => entry.1 = name).map Prod.snd

/-- The slot of a name, from the innermost block that binds it. -/
def Frames.slot? (frames : Frames) (name : String) : Option Nat :=
  frames.findSome? fun frame => slotIn? frame name

/-- The state of checking one function. -/
structure Scope where
  frames : Frames
  nextSlot : Nat
  /-- Nothing while the kind of an `auto` function is undeduced. -/
  returns : Option ReturnKind
deriving DecidableEq, Repr

namespace Scope

/-- The scope of a function's parameters. -/
def ofFunction (returns : Option ReturnKind) : Scope := ⟨[[]], 0, returns⟩

/-- Whether the innermost block binds a name. -/
def declaredHere (scope : Scope) (name : String) : Bool :=
  match scope.frames with
  | [] => false
  | frame :: _ => (slotIn? frame name).isSome

/-- Binds a name to the next slot in the innermost block. -/
def bind (scope : Scope) (name : String) : Nat × Scope :=
  ( scope.nextSlot,
    { scope with
      frames := match scope.frames with
        | [] => []
        | frame :: outer => ((name, scope.nextSlot) :: frame) :: outer,
      nextSlot := scope.nextSlot + 1 } )

/-- Opens a block. -/
def enter (scope : Scope) : Scope := { scope with frames := [] :: scope.frames }

/-- Closes the block: the names of `outer` are in scope again. -/
def leaveTo (inner outer : Scope) : Scope := { inner with frames := outer.frames }

end Scope

end IncrementalC.Analysis
