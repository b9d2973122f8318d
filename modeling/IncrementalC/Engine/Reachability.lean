import IncrementalC.Engine.Basic

/-!
Contract: the names that code needs and nothing defines.

Code needs the names it uses, and through generated functions the names that those
use. A name is followed once, when it is first met, so that the search ends however
the code refers to itself: each round takes one address, and there are no more
addresses than roots and defined names.

Owns: the search for missing names.

Does not own: what is done about them.
-/

namespace IncrementalC.Engine

/-- The state of a search. -/
structure Search where
  /-- Addresses whose code is still to be looked at. -/
  queue : List Address
  /-- Names that were met. -/
  met : List String
  /-- Names met that nothing defines. -/
  missing : NameSet
  engine : Engine

namespace Search

/-- Meets a name. Native functions are asked for a name only where no code defines
it. -/
def meet (search : Search) (name : String) : Search :=
  if name ∈ search.met then
    search
  else
    let met := name :: search.met
    match search.engine.machine.resolve? name with
    | some address => { search with met, queue := search.queue ++ [address] }
    | none =>
      let (found, engine) := search.engine.resolvesNatively name
      let missing := if found then search.missing else NameSet.insert name search.missing
      { search with met, missing, engine }

/-- Looks at queued addresses, first in, first out, for at most `rounds` rounds. -/
def run : (rounds : Nat) → Search → Search
  | 0, search => search
  | rounds + 1, search =>
    match search.queue with
    | [] => search
    | address :: rest =>
      let names := search.engine.machine.referencesAt address
      run rounds (names.foldl meet { search with queue := rest })

end Search

/-- As many rounds as a search from `roots` can take. -/
def searchRounds (engine : Engine) (roots : List Address) : Nat :=
  roots.length + (engine.machine.modules.flatMap fun module => module.unit.definedNames).length

/-- The names that code at `roots` needs and nothing defines, in ascending order. -/
def missingNames (engine : Engine) (roots : List Address) : NameSet × Engine :=
  let search := Search.run (engine.searchRounds roots) ⟨roots, [], [], engine⟩
  (search.missing, search.engine)

end IncrementalC.Engine
