/-!
Contract: names that the interpreter makes up.

Owns:
- the shape of a generated name, a fixed stem and a decimal number;
- the supply that hands out each number once;
- taking a name that is not in use.

Does not own: which names are in use.
-/

namespace IncrementalC.Input

/-- How every generated name starts. -/
def generatedStem : String := "__weft_Un1Qu3"

/-- The supply of generated names; it knows how many it has handed out. -/
structure NameSupply where
  issued : Nat
deriving DecidableEq, Repr

namespace NameSupply

/-- A supply that has handed out nothing. -/
def new : NameSupply := ⟨0⟩

/-- Hands out a name that was never handed out before. -/
def reserve (supply : NameSupply) : String × NameSupply :=
  (generatedStem ++ toString supply.issued, ⟨supply.issued + 1⟩)

/-- Hands out names until one is not in `taken`, at most `attempts` times more. -/
def reserveUntil (taken : List String) : (attempts : Nat) → NameSupply → String × NameSupply
  | 0, supply => supply.reserve
  | attempts + 1, supply =>
    let candidate := supply.reserve
    if candidate.1 ∈ taken then reserveUntil taken attempts candidate.2 else candidate

/-- Hands out a name that is not in `taken`. As the names handed out differ, one more
attempt than there are taken names suffices. -/
def reserveFresh (supply : NameSupply) (taken : List String) : String × NameSupply :=
  reserveUntil taken taken.length supply

end NameSupply

/-- Whether a name has the shape of a generated one. -/
def isGeneratedName (name : String) : Bool :=
  let stem := generatedStem.toList
  let number := name.toList.drop stem.length
  stem.isPrefixOf name.toList && !number.isEmpty && number.all Char.isDigit

end IncrementalC.Input
