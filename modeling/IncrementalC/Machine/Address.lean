import IncrementalC.Source.Position

/-!
Contract: addresses of generated code and data.

Owns: numbers of modules, the kinds of things a module holds, and addresses with
their written form `module:kind#index`, which can be read.

Does not own: what stands at an address.
-/

namespace IncrementalC

/-- The number of a module of generated code; numbers are never used again. -/
structure ModuleId where
  number : Nat
deriving DecidableEq, Repr, Inhabited

/-- The kinds of things that a module holds. -/
inductive AddressKind where
  | function
  | global
  | initializer
deriving DecidableEq, Repr

/-- The written form of a kind. -/
def AddressKind.render : AddressKind → String
  | .function => "fn"
  | .global => "global"
  | .initializer => "init"

/-- The place of one thing among those of its kind in a module. -/
structure Address where
  module : ModuleId
  kind : AddressKind
  index : Nat
deriving DecidableEq, Repr

/-- The written form `module:kind#index`. -/
def Address.render (address : Address) : String :=
  toString address.module.number ++ ":" ++ address.kind.render ++ "#" ++ toString address.index

/-- The kind of a written form. -/
def AddressKind.ofText? (text : String) : Option AddressKind :=
  [function, global, initializer].find? fun kind => kind.render = text

/-- The number that decimal digits denote. -/
def numberOfDigits? (digits : List Char) : Option Nat :=
  if digits.all Char.isDigit then (String.ofList digits).toNat? else none

/-- Reads the written form of an address. -/
def Address.ofText? (text : String) : Option Address := do
  let afterModule := text.toList.dropWhile (· ≠ ':')
  let afterKind := afterModule.dropWhile (· ≠ '#')
  let module ← numberOfDigits? (text.toList.takeWhile (· ≠ ':'))
  let kind ← AddressKind.ofText? (String.ofList ((afterModule.drop 1).takeWhile (· ≠ '#')))
  let index ← numberOfDigits? (afterKind.drop 1)
  return ⟨⟨module⟩, kind, index⟩

end IncrementalC
