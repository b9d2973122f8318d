import IncrementalC.Machine.Module

/-!
Contract: the settings of an interpreter.

Owns: the settings, their usual values, and the limits on running code they imply.

Does not own: how settings are written.
-/

namespace IncrementalC

/-- What is done when a transaction is to be removed that others use. -/
inductive UnloadPolicy where
  /-- It is removed; what uses it lacks names from then on. -/
  | allowDangling
  /-- It stays as long as something uses it. -/
  | rejectLiveDependents
deriving DecidableEq, Repr

/-- The settings of an interpreter. -/
structure Config where
  /-- Input is never wrapped; everything is top-level declarations. -/
  rawInput : Bool := false
  /-- Lowered code is logged. -/
  printsCode : Bool := false
  /-- Warnings that are not benign are fatal. -/
  fatalWarnings : Bool := false
  unloadPolicy : UnloadPolicy := .allowDangling
  /-- The directories in which libraries are searched for. -/
  librarySearchPaths : List String := []
  maxCallDepth : Nat := 512
  maxFrameSlots : Nat := 256
  /-- Outstanding at-exit actions run when the interpreter goes away. -/
  runsDestructorsOnDrop : Bool := true
deriving DecidableEq, Repr

/-- The usual settings. -/
def Config.standard : Config := {}

/-- The limits on running code. -/
def Config.limits (config : Config) : Limits :=
  { Limits.standard with callDepth := config.maxCallDepth, frameSlots := config.maxFrameSlots }

end IncrementalC
