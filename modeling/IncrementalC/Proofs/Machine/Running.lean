import IncrementalC.Proofs.Machine.Storage
import IncrementalC.Proofs.Machine.Module

/-!
Contract: what running code keeps.

A run does nothing but read and write variables, call native functions and register
functions. What all of these keep, every run keeps, and a run stops for no other
reason than one of them or the code itself does.

Owns: computations that keep a property and stop for given reasons only, the uses that
code makes of names, and the rule for running what stands at an address.

Does not own: which uses find what they need.
-/

namespace IncrementalC

/-! ## Uses -/

namespace Code

/-- How code uses a name. -/
inductive Use where
  | read (name : String)
  | write (name : String)
  | call (name : String)
  | register (name : String)
deriving DecidableEq, Repr

def Use.name : Use → String
  | .read name | .write name | .call name | .register name => name

mutual

/-- The uses in an expression, in the order of writing. -/
def Expression.uses : Expression → List Use
  | .integer _ | .slot _ => []
  | .global name => [.read name]
  | .assignSlot _ value => value.uses
  | .assignGlobal name value => .write name :: value.uses
  | .call callee arguments => .call callee :: Expression.listUses arguments
  | .atExit function argument => .register function :: argument.uses
  | .unary _ operand => operand.uses
  | .binary _ left right | .and left right | .or left right => left.uses ++ right.uses

def Expression.listUses : List Expression → List Use
  | [] => []
  | head :: tail => head.uses ++ Expression.listUses tail

end

mutual

/-- The uses in a statement. -/
def Statement.uses : Statement → List Use
  | .evaluate value | .store _ value => value.uses
  | .choose condition whenTrue whenFalse =>
    condition.uses ++ Statement.listUses whenTrue ++ Statement.listUses whenFalse
  | .loop condition body => condition.uses ++ Statement.listUses body
  | .leave (some value) => value.uses
  | .leave none => []

def Statement.listUses : List Statement → List Use
  | [] => []
  | head :: tail => head.uses ++ Statement.listUses tail

end

end Code

namespace Machine

open Code (Expression Statement Use)

/-! ## Computations that keep a property -/

/-- The property holds at the end, and a stop is an allowed one. -/
def EndsWithin {S α : Type} (kept : S → Prop) (allowed : Stop → Prop) :
    EStateM.Result Stop S α → Prop
  | .ok _ after => kept after
  | .error stop after => kept after ∧ allowed stop

/-- The computation keeps `kept`, and stops only as `allowed` says. -/
def Within {S α : Type} (kept : S → Prop) (allowed : Stop → Prop) (computation : Run S α) : Prop :=
  ∀ state, kept state → EndsWithin kept allowed (computation state)

section

variable {S α β : Type} {kept : S → Prop} {allowed : Stop → Prop}

theorem Within.pure (value : α) : Within kept allowed (Pure.pure value) := fun _ holds => holds

theorem Within.stop {stop : Stop} (fine : allowed stop) :
    Within kept allowed (throw stop : Run S α) :=
  fun _ holds => ⟨holds, fine⟩

/-- What a computation keeps says nothing about its stops; they can be narrowed down. -/
theorem Within.stopping {narrower : Stop → Prop} {computation : Run S α}
    (within : Within kept allowed computation)
    (stops : ∀ state, kept state → ∀ stop after,
      computation state = .error stop after → narrower stop) :
    Within kept narrower computation := by
  intro state holds
  have ended := within state holds
  cases finished : computation state with
  | ok value after =>
    rw [finished] at ended
    exact ended
  | error stop after =>
    rw [finished] at ended
    exact ⟨ended.1, stops state holds stop after finished⟩

theorem Within.bind {computation : Run S α} {next : α → Run S β}
    (first : Within kept allowed computation) (rest : ∀ value, Within kept allowed (next value)) :
    Within kept allowed (computation >>= next) := by
  intro state holds
  have ended := first state holds
  show EndsWithin kept allowed (EStateM.bind computation next state)
  unfold EStateM.bind
  cases finished : computation state with
  | ok value after =>
    rw [finished] at ended
    exact rest value after ended
  | error stop after =>
    rw [finished] at ended
    exact ended

end

section

variable {σ α : Type} {kept : State σ → Prop} {allowed : Stop → Prop}

/-- A property of the shared state beside a frame of the size. -/
def besideFrame (size : Nat) (kept : State σ → Prop) : Activation σ → Prop := fun activation =>
  activation.frame.size = size ∧ kept activation.state

variable {size : Nat}

theorem Within.outsideFrame {computation : Run (State σ) α}
    (within : Within kept allowed computation) :
    Within (besideFrame size kept) allowed (Machine.outsideFrame computation) := by
  rintro ⟨frame, state⟩ ⟨sameSize, holds⟩
  have ended := within state holds
  simp only [Machine.outsideFrame]
  cases finished : computation state with
  | ok value after =>
    rw [finished] at ended
    exact ⟨sameSize, ended⟩
  | error stop after =>
    rw [finished] at ended
    exact ⟨⟨sameSize, ended.1⟩, ended.2⟩

theorem Within.insideFrame {computation : Run (Activation σ) α} {frame : Array Int64}
    (within : Within (besideFrame frame.size kept) allowed computation) :
    Within kept allowed (Machine.insideFrame frame computation) := by
  intro state holds
  have ended := within ⟨frame, state⟩ ⟨rfl, holds⟩
  simp only [Machine.insideFrame]
  cases finished : computation ⟨frame, state⟩ with
  | ok value after =>
    rw [finished] at ended
    exact ended.2
  | error stop after =>
    rw [finished] at ended
    exact ⟨ended.1.2, ended.2⟩

theorem readSlot_within {slot : Nat}
    (fits : slot < size ∨ allowed (.breakdown (.slotOutsideFrame slot size))) :
    Within (besideFrame size kept) allowed (readSlot (σ := σ) slot) := by
  intro activation holds
  cases stored : activation.frame[slot]? with
  | some value =>
    rw [readSlot_inside stored]
    exact holds
  | none =>
    have outside := Array.getElem?_eq_none_iff.mp stored
    rw [readSlot_outside stored, holds.1]
    rw [holds.1] at outside
    exact ⟨holds, fits.resolve_left (Nat.not_lt.mpr outside)⟩

theorem writeSlot_within {slot : Nat}
    (fits : slot < size ∨ allowed (.breakdown (.slotOutsideFrame slot size))) (value : Int64) :
    Within (besideFrame size kept) allowed (writeSlot (σ := σ) slot value) := by
  intro activation holds
  by_cases inside : slot < activation.frame.size
  · rw [writeSlot_inside inside]
    exact ⟨Array.size_setIfInBounds.trans holds.1, holds.2⟩
  · rw [writeSlot_outside inside, holds.1]
    rw [holds.1] at inside
    exact ⟨holds, fits.resolve_left inside⟩

theorem repeatWhile_within {kept : Activation σ → Prop} (endless : allowed (.breakdown .endlessLoop))
    {condition : Run (Activation σ) Int64} {body : Run (Activation σ) Flow}
    (tested : Within kept allowed condition) (round : Within kept allowed body) (rounds : Nat) :
    Within kept allowed (repeatWhile condition body rounds) := by
  induction rounds with
  | zero => exact fun _ holds => ⟨holds, endless⟩
  | succ rounds inductionHypothesis =>
    intro activation holds
    have afterTest := tested activation holds
    simp only [repeatWhile]
    cases test : condition activation with
    | error stop after =>
      rw [test] at afterTest
      exact afterTest
    | ok value after =>
      rw [test] at afterTest
      by_cases zero : value = 0
      · simp only [if_pos zero]
        exact afterTest
      · simp only [if_neg zero]
        have afterRound := round after afterTest
        cases finished : body after with
        | error stop final =>
          rw [finished] at afterRound
          exact afterRound
        | ok flow final =>
          rw [finished] at afterRound
          cases flow with
          | returned result => exact afterRound
          | normal => exact inductionHypothesis final afterRound

end

/-! ## Permitted uses -/

section

variable {σ : Type} {kept : State σ → Prop} {allowed : Stop → Prop} {permitted : Use → Prop}

/-- Permitted uses keep the property and stop only as allowed. -/
structure Linkage.Permits (linkage : Linkage σ) (kept : State σ → Prop) (allowed : Stop → Prop)
    (permitted : Use → Prop) : Prop where
  divides : allowed (.fault .divisionByZero)
  endless : allowed (.breakdown .endlessLoop)
  read : ∀ name, permitted (.read name) → Within kept allowed (readGlobal name)
  write : ∀ name, permitted (.write name) → ∀ value,
    Within kept allowed (writeGlobal name value)
  call : ∀ name, permitted (.call name) → ∀ arguments,
    Within kept allowed (linkage.call name arguments)
  register : ∀ name, permitted (.register name) → ∀ argument,
    Within kept allowed (linkage.registerAtExit name argument)

variable {linkage : Linkage σ} {size : Nat}

/-- Dividing by zero is all that can be wrong with operands. -/
theorem eq_divisionByZero_of_applyStrict {operator : StrictOperator} {left right : Int64}
    {fault : Fault} (failed : applyStrict operator left right = .error fault) :
    fault = .divisionByZero := by
  unfold applyStrict at failed
  split at failed
  case h_4 | h_5 =>
    split at failed
    · exact (Except.error.inj failed).symm
    · cases failed
  all_goals cases failed

mutual

theorem evaluate_within (permits : linkage.Permits kept allowed permitted) :
    ∀ expression : Expression, (∀ use ∈ expression.uses, permitted use) →
      FitsFrame allowed size expression.slots →
      Within (besideFrame size kept) allowed (evaluate linkage expression)
  | .integer value => by
    intro _ _
    exact Within.pure value
  | .slot slot => by
    intro _ fits
    exact readSlot_within (fits slot (List.mem_singleton_self _))
  | .global name => by
    intro uses _
    exact (permits.read name (uses _ (List.mem_singleton_self _))).outsideFrame
  | .assignSlot slot value => by
    intro uses fits
    obtain ⟨here, valueFits⟩ := fitsFrame_cons_iff.mp fits
    simp only [evaluate]
    refine (evaluate_within permits value uses valueFits).bind fun result => ?_
    refine (writeSlot_within here result).bind fun _ => ?_
    exact Within.pure result
  | .assignGlobal name value => by
    intro uses fits
    simp only [Expression.uses, List.forall_mem_cons] at uses
    simp only [evaluate]
    refine (evaluate_within permits value uses.2 fits).bind fun result => ?_
    refine (permits.write name uses.1 result).outsideFrame.bind fun _ => ?_
    exact Within.pure result
  | .call callee arguments => by
    intro uses fits
    simp only [Expression.uses, List.forall_mem_cons] at uses
    simp only [evaluate]
    refine (evaluateAll_within permits arguments uses.2 fits).bind fun values => ?_
    exact (permits.call callee uses.1 values).outsideFrame
  | .atExit function argument => by
    intro uses fits
    simp only [Expression.uses, List.forall_mem_cons] at uses
    simp only [evaluate]
    refine (evaluate_within permits argument uses.2 fits).bind fun value => ?_
    refine (permits.register function uses.1 value).outsideFrame.bind fun _ => ?_
    exact Within.pure 0
  | .unary operator operand => by
    intro uses fits
    simp only [evaluate]
    exact (evaluate_within permits operand uses fits).bind fun value => Within.pure _
  | .binary operator left right => by
    intro uses fits
    simp only [Expression.uses, List.forall_mem_append] at uses
    obtain ⟨leftFits, rightFits⟩ := fitsFrame_append_iff.mp fits
    simp only [evaluate]
    refine (evaluate_within permits left uses.1 leftFits).bind fun leftValue => ?_
    refine (evaluate_within permits right uses.2 rightFits).bind fun rightValue => ?_
    cases applied : applyStrict operator leftValue rightValue with
    | ok result => exact Within.pure result
    | error fault =>
      obtain rfl := eq_divisionByZero_of_applyStrict applied
      exact Within.stop permits.divides
  | .and left right => by
    intro uses fits
    simp only [Expression.uses, List.forall_mem_append] at uses
    obtain ⟨leftFits, rightFits⟩ := fitsFrame_append_iff.mp fits
    simp only [evaluate]
    refine (evaluate_within permits left uses.1 leftFits).bind fun leftValue => ?_
    by_cases zero : leftValue = 0
    · rw [if_pos zero]
      exact Within.pure 0
    · rw [if_neg zero]
      exact (evaluate_within permits right uses.2 rightFits).bind fun rightValue => Within.pure _
  | .or left right => by
    intro uses fits
    simp only [Expression.uses, List.forall_mem_append] at uses
    obtain ⟨leftFits, rightFits⟩ := fitsFrame_append_iff.mp fits
    simp only [evaluate]
    refine (evaluate_within permits left uses.1 leftFits).bind fun leftValue => ?_
    by_cases zero : leftValue = 0
    · rw [if_pos zero]
      exact (evaluate_within permits right uses.2 rightFits).bind fun rightValue => Within.pure _
    · rw [if_neg zero]
      exact Within.pure 1

theorem evaluateAll_within (permits : linkage.Permits kept allowed permitted) :
    ∀ expressions : List Expression, (∀ use ∈ Expression.listUses expressions, permitted use) →
      FitsFrame allowed size (Expression.listSlots expressions) →
      Within (besideFrame size kept) allowed (evaluateAll linkage expressions)
  | [] => by
    intro _ _
    exact Within.pure []
  | head :: tail => by
    intro uses fits
    simp only [Expression.listUses, List.forall_mem_append] at uses
    obtain ⟨headFits, tailFits⟩ := fitsFrame_append_iff.mp fits
    simp only [evaluateAll]
    refine (evaluate_within permits head uses.1 headFits).bind fun value => ?_
    refine (evaluateAll_within permits tail uses.2 tailFits).bind fun values => ?_
    exact Within.pure _

end

mutual

theorem execute_within (permits : linkage.Permits kept allowed permitted) :
    ∀ statement : Statement, (∀ use ∈ statement.uses, permitted use) →
      FitsFrame allowed size statement.slots →
      Within (besideFrame size kept) allowed (execute linkage statement)
  | .evaluate value => by
    intro uses fits
    simp only [execute]
    exact (evaluate_within permits value uses fits).bind fun _ => Within.pure _
  | .store slot value => by
    intro uses fits
    obtain ⟨here, valueFits⟩ := fitsFrame_cons_iff.mp fits
    simp only [execute]
    refine (evaluate_within permits value uses valueFits).bind fun result => ?_
    exact (writeSlot_within here result).bind fun _ => Within.pure _
  | .choose condition whenTrue whenFalse => by
    intro uses fits
    simp only [Statement.uses, List.forall_mem_append] at uses
    simp only [Statement.slots, fitsFrame_append_iff] at fits
    obtain ⟨⟨conditionFits, trueFits⟩, falseFits⟩ := fits
    simp only [execute]
    refine (evaluate_within permits condition uses.1.1 conditionFits).bind fun value => ?_
    by_cases zero : value = 0
    · rw [if_pos zero]
      exact executeAll_within permits whenFalse uses.2 falseFits
    · rw [if_neg zero]
      exact executeAll_within permits whenTrue uses.1.2 trueFits
  | .loop condition body => by
    intro uses fits
    simp only [Statement.uses, List.forall_mem_append] at uses
    obtain ⟨conditionFits, bodyFits⟩ := fitsFrame_append_iff.mp fits
    simp only [execute]
    exact repeatWhile_within permits.endless
      (evaluate_within permits condition uses.1 conditionFits)
      (executeAll_within permits body uses.2 bodyFits) linkage.rounds
  | .leave none => by
    intro _ _
    exact Within.pure _
  | .leave (some value) => by
    intro uses fits
    simp only [execute]
    exact (evaluate_within permits value uses fits).bind fun _ => Within.pure _

theorem executeAll_within (permits : linkage.Permits kept allowed permitted) :
    ∀ statements : List Statement, (∀ use ∈ Statement.listUses statements, permitted use) →
      FitsFrame allowed size (Statement.listSlots statements) →
      Within (besideFrame size kept) allowed (executeAll linkage statements)
  | [] => by
    intro _ _
    exact Within.pure _
  | head :: tail => by
    intro uses fits
    simp only [Statement.listUses, List.forall_mem_append] at uses
    obtain ⟨headFits, tailFits⟩ := fitsFrame_append_iff.mp fits
    simp only [executeAll]
    refine (execute_within permits head uses.1 headFits).bind fun flow => ?_
    cases flow with
    | returned value => exact Within.pure _
    | normal => exact executeAll_within permits tail uses.2 tailFits

end

end

/-! ## Functions and addresses -/

section

variable {σ : Type} {machine : Machine} {services : Services σ} {kept : State σ → Prop}
  {allowed : Stop → Prop} {permitted : Use → Prop}

/-- Permitted uses keep the property and stop only as allowed, what a permitted call runs
makes permitted uses only, and code leaves its frame only if that is allowed. -/
structure Permits (machine : Machine) (services : Services σ) (kept : State σ → Prop)
    (allowed : Stop → Prop) (permitted : Use → Prop) : Prop where
  divides : allowed (.fault .divisionByZero)
  overflows : allowed (.fault (.stackOverflow (machine.limits.callDepth + 1)))
  endless : allowed (.breakdown .endlessLoop)
  fits : ∀ module ∈ machine.modules, module.unit.Fits allowed
  read : ∀ name, permitted (.read name) → Within kept allowed (readGlobal name)
  write : ∀ name, permitted (.write name) → ∀ value,
    Within kept allowed (writeGlobal name value)
  native : ∀ name, permitted (.call name) → machine.function? name = none → ∀ arguments,
    Within kept allowed (callNative services name arguments)
  register : ∀ name, permitted (.register name) → ∀ argument,
    Within kept allowed (machine.registerAtExit services name argument)
  closed : ∀ name function, permitted (.call name) → machine.function? name = some function →
    ∀ use ∈ Statement.listUses function.body, permitted use

/-- The property is kept by each thing that a run does to the state. -/
structure KeptByUses (machine : Machine) (services : Services σ) (kept : State σ → Prop) :
    Prop where
  assigns : ∀ {state : State σ} (name : String) (value : Int64), kept state →
    kept { state with globals := state.globals.assign name value }
  calls : ∀ {state : State σ} (name : String) (arguments : List Int64), kept state →
    kept { state with host := (services.callNative name arguments state.host).2 }
  registers : ∀ {state : State σ} {name : String} {address : Address} (argument : Value),
    machine.functionAddress? name = some address → kept state →
    kept { state with host := services.registerAtExit name address argument state.host }

/-- Every way in which a use, an operator, a call or a loop can stop is allowed. -/
structure Allows (machine : Machine) (services : Services σ) (allowed : Stop → Prop) : Prop where
  unresolved : ∀ name, allowed (.fault (.unresolved name))
  native : ∀ name arguments host fault,
    (services.callNative name arguments host).1 = .error fault → allowed (.fault fault)
  divides : allowed (.fault .divisionByZero)
  overflows : allowed (.fault (.stackOverflow (machine.limits.callDepth + 1)))
  endless : allowed (.breakdown .endlessLoop)
  fits : ∀ module ∈ machine.modules, module.unit.Fits allowed

/-- What is kept so is kept by all uses of names, each of which may fail in its own way. -/
theorem KeptByUses.permits_of_allows (keeps : machine.KeptByUses services kept)
    (allows : machine.Allows services allowed) :
    machine.Permits services kept allowed (fun _ => True) where
  divides := allows.divides
  overflows := allows.overflows
  endless := allows.endless
  fits := allows.fits
  read name _ := by
    intro state holds
    cases stored : state.globals.get? name with
    | some value =>
      rw [readGlobal_stored stored]
      exact holds
    | none =>
      rw [readGlobal_absent stored]
      exact ⟨holds, allows.unresolved name⟩
  write name _ value := by
    intro state holds
    by_cases stored : state.globals.contains name
    · rw [writeGlobal_stored stored]
      exact keeps.assigns name value holds
    · rw [writeGlobal_absent stored]
      exact ⟨holds, allows.unresolved name⟩
  native name _ _ arguments := by
    intro state holds
    have called := keeps.calls name arguments holds
    have fails := allows.native name arguments state.host
    unfold callNative
    rcases answer : services.callNative name arguments state.host with ⟨fault | value, after⟩
    · rw [answer] at called fails
      exact ⟨called, fails fault rfl⟩
    · rw [answer] at called
      exact called
  register name _ argument := by
    intro state holds
    unfold Machine.registerAtExit
    cases found : machine.functionAddress? name with
    | none => exact ⟨holds, allows.unresolved name⟩
    | some address => exact keeps.registers (.int argument) found holds
  closed _ _ _ _ _ _ := trivial

/-- What is kept so is kept by all uses of names, each of which may fail. -/
theorem KeptByUses.permits (keeps : machine.KeptByUses services kept)
    (faults : ∀ fault, allowed (.fault fault)) (endless : allowed (.breakdown .endlessLoop))
    (fits : ∀ module ∈ machine.modules, module.unit.Fits allowed) :
    machine.Permits services kept allowed (fun _ => True) :=
  keeps.permits_of_allows
    { unresolved := fun _ => faults _
      native := fun _ _ _ fault _ => faults fault
      divides := faults _
      overflows := faults _
      endless, fits }

theorem Permits.linkage (permits : machine.Permits services kept allowed permitted)
    {invoke : Code.Function → List Int64 → Run (State σ) Value}
    (invoked : ∀ function, (∀ use ∈ Statement.listUses function.body, permitted use) →
      FitsFrame allowed function.room (Statement.listSlots function.body) →
      ∀ arguments, Within kept allowed (invoke function arguments)) :
    (machine.linkage services invoke).Permits kept allowed permitted where
  divides := permits.divides
  endless := permits.endless
  read := permits.read
  write := permits.write
  register := permits.register
  call name use arguments := by
    simp only [Machine.linkage]
    cases found : machine.function? name with
    | none => exact permits.native name use found arguments
    | some function =>
      have uses := permits.closed name function use found
      obtain ⟨module, live, inModule⟩ := exists_of_function? found
      have fits := (permits.fits module live).functions function inModule
      exact (invoked function uses fits arguments).bind fun _ => Within.pure _

/-- The body of a function is run as far as its uses are permitted. -/
theorem activate_within {linkage : Linkage σ} (permits : linkage.Permits kept allowed permitted)
    (function : Code.Function) (uses : ∀ use ∈ Statement.listUses function.body, permitted use)
    (fits : FitsFrame allowed function.room (Statement.listSlots function.body))
    (arguments : List Int64) : Within kept allowed (activate linkage function arguments) := by
  rw [← size_callFrame function arguments] at fits
  unfold activate
  exact (executeAll_within permits function.body uses fits).insideFrame.bind fun _ => Within.pure _

theorem invoke_within (permits : machine.Permits services kept allowed permitted)
    (allowance : Nat) (function : Code.Function)
    (uses : ∀ use ∈ Statement.listUses function.body, permitted use)
    (fits : FitsFrame allowed function.room (Statement.listSlots function.body))
    (arguments : List Int64) :
    Within kept allowed (machine.invoke services allowance function arguments) := by
  induction allowance generalizing function arguments with
  | zero => exact Within.stop permits.overflows
  | succ allowance inductionHypothesis =>
    exact activate_within (permits.linkage inductionHypothesis) function uses fits arguments

/-- Runs what stands at an address, calling functions through `invoke`. -/
def runThrough (machine : Machine) (services : Services σ)
    (invoke : Code.Function → List Int64 → Run (State σ) Value) (address : Address)
    (arguments : List Value) : Run (State σ) Value :=
  let nothing : Run (State σ) Value := faultWith (.unresolved address.render)
  match machine.module? address.module with
  | none => nothing
  | some module =>
    match address.kind with
    | .function =>
      match module.unit.functions[address.index]? with
      | none => nothing
      | some function => invoke function (arguments.map Value.asInt)
    | .initializer =>
      match module.unit.initializers[address.index]? with
      | none => nothing
      | some initializer => do
        let value ← insideFrame #[]
          (evaluate (machine.linkage services invoke) initializer.value)
        writeGlobal initializer.global value
        return .void
    | .global =>
      match module.unit.globals[address.index]? with
      | none => nothing
      | some entry => do
        match (← get).globals.get? entry.name with
        | some value => return .int value
        | none => nothing

theorem runAt_eq (machine : Machine) (services : Services σ) :
    machine.runAt services =
      machine.runThrough services (machine.invoke services machine.limits.callDepth) := rfl

/-- The uses of the code at an address. -/
def usesAt (machine : Machine) (address : Address) : List Use :=
  match machine.module? address.module with
  | none => []
  | some module =>
    match address.kind with
    | .function =>
      match module.unit.functions[address.index]? with
      | none => []
      | some function => Statement.listUses function.body
    | .initializer =>
      match module.unit.initializers[address.index]? with
      | none => []
      | some initializer => .write initializer.global :: initializer.value.uses
    | .global => []

/-- Something stands at the address. -/
def Stands (machine : Machine) (globals : GlobalStore) (address : Address) : Prop :=
  ∃ module, machine.module? address.module = some module ∧
    match address.kind with
    | .function => address.index < module.unit.functions.length
    | .initializer => address.index < module.unit.initializers.length
    | .global => ∃ entry, module.unit.globals[address.index]? = some entry ∧
      (globals.get? entry.name).isSome

/-- What stands at an address depends on the names in the store only. -/
theorem Stands.of_sameNames {globals others : GlobalStore} {address : Address}
    (stands : machine.Stands globals address)
    (sameNames : others.map Prod.fst = globals.map Prod.fst) : machine.Stands others address := by
  obtain ⟨module, live, inside⟩ := stands
  refine ⟨module, live, ?_⟩
  cases kind : address.kind with
  | function => simpa only [kind] using inside
  | initializer => simpa only [kind] using inside
  | global =>
    simp only [kind] at inside ⊢
    obtain ⟨entry, at?, stored⟩ := inside
    refine ⟨entry, at?, ?_⟩
    rw [Option.isSome_iff_ne_none] at stored ⊢
    rw [Ne, GlobalStore.get?_eq_none_iff, sameNames, ← GlobalStore.get?_eq_none_iff]
    exact stored

theorem runThrough_within (permits : machine.Permits services kept allowed permitted)
    {invoke : Code.Function → List Int64 → Run (State σ) Value}
    (invoked : ∀ function, (∀ use ∈ Statement.listUses function.body, permitted use) →
      FitsFrame allowed function.room (Statement.listSlots function.body) →
      ∀ arguments, Within kept allowed (invoke function arguments))
    (address : Address) (uses : ∀ use ∈ machine.usesAt address, permitted use)
    (vacant : ∀ state, kept state → ¬ machine.Stands state.globals address →
      allowed (.fault (.unresolved address.render)))
    (arguments : List Value) :
    Within kept allowed (machine.runThrough services invoke address arguments) := by
  intro state holds
  have nothing := vacant state holds
  unfold Stands at nothing
  unfold usesAt at uses
  simp only [runThrough]
  cases found : machine.module? address.module with
  | none => exact ⟨holds, nothing (by simp [found])⟩
  | some module =>
    simp only [found] at uses nothing ⊢
    have fits := permits.fits module (mem_of_module? found)
    cases kind : address.kind with
    | function =>
      simp only [kind] at uses nothing ⊢
      cases at? : module.unit.functions[address.index]? with
      | none =>
        refine ⟨holds, nothing ?_⟩
        have outside := List.getElem?_eq_none_iff.mp at?
        rintro ⟨_, ⟨⟩, inside⟩
        omega
      | some function =>
        simp only [at?] at uses
        have framed := fits.functions function (List.mem_of_getElem? at?)
        exact invoked function uses framed _ state holds
    | initializer =>
      simp only [kind] at uses nothing ⊢
      cases at? : module.unit.initializers[address.index]? with
      | none =>
        refine ⟨holds, nothing ?_⟩
        have outside := List.getElem?_eq_none_iff.mp at?
        rintro ⟨_, ⟨⟩, inside⟩
        omega
      | some initializer =>
        simp only [at?, List.forall_mem_cons] at uses
        have framed := fits.initializers initializer (List.mem_of_getElem? at?)
        have linked := permits.linkage invoked
        refine Within.bind (Within.insideFrame ?_) (fun value => ?_) state holds
        · exact evaluate_within linked initializer.value uses.2 framed
        · exact (permits.write _ uses.1 value).bind fun _ => Within.pure _
    | global =>
      simp only [kind] at nothing ⊢
      cases at? : module.unit.globals[address.index]? with
      | none =>
        refine ⟨holds, nothing ?_⟩
        rintro ⟨_, ⟨⟩, entry, same, -⟩
        rw [at?] at same
        cases same
      | some entry =>
        show EndsWithin kept allowed (EStateM.run (get >>= _) state)
        simp only [EStateM.run_bind, EStateM.run_get]
        cases value : state.globals.get? entry.name with
        | none =>
          refine ⟨holds, nothing ?_⟩
          rintro ⟨_, ⟨⟩, other, same, isSome⟩
          rw [at?] at same
          obtain rfl := Option.some.inj same
          rw [value] at isSome
          cases isSome
        | some number => exact holds

theorem runAt_within (permits : machine.Permits services kept allowed permitted)
    (address : Address) (uses : ∀ use ∈ machine.usesAt address, permitted use)
    (vacant : ∀ state, kept state → ¬ machine.Stands state.globals address →
      allowed (.fault (.unresolved address.render)))
    (arguments : List Value) :
    Within kept allowed (machine.runAt services address arguments) := by
  rw [runAt_eq]
  exact runThrough_within permits (invoke_within permits machine.limits.callDepth) address uses
    vacant arguments

/-- A run leaves a state that keeps the property, whatever stands at the address. -/
theorem KeptByUses.run (keeps : machine.KeptByUses services kept) (address : Address)
    (arguments : List Value) {host : σ} (holds : kept ⟨machine.globals, host⟩) :
    ∃ state, kept state ∧ (machine.run services address arguments host).2 =
      ({ machine with globals := state.globals }, state.host) := by
  have permits : machine.Permits services kept (fun _ => True) (fun _ => True) :=
    keeps.permits (fun _ => trivial) trivial fun _ _ =>
      CodeUnit.fits_of_allowed (fun _ _ => trivial) _
  have within := runAt_within permits address (fun _ _ => trivial) (fun _ _ _ => trivial) arguments
    ⟨machine.globals, host⟩ holds
  unfold Machine.run
  cases finished : machine.runAt services address arguments ⟨machine.globals, host⟩ with
  | ok value state =>
    rw [finished] at within
    exact ⟨state, within, rfl⟩
  | error stop state =>
    rw [finished] at within
    exact ⟨state, within.1, rfl⟩

end

end Machine

end IncrementalC
