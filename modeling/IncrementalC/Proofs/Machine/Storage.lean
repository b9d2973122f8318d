import Mathlib.Data.List.Basic
import IncrementalC.Machine.Evaluation
import IncrementalC.Machine.Module

/-!
Contract: reading and writing, one equation for each way it can end, and code that stays inside
its frame.

A variable is read and written exactly if the store has its name, and a slot exactly if
it lies in the frame. Writing changes values and never the names. A call gets a frame of a size
that is fixed from then on, and an initializer gets a frame without slots.

Owns:
- the names of a store, and how each access ends;
- the slots that code uses, the size of a frame, and code that uses slots of its frame only,
  unless leaving the frame is allowed.

Does not own: which names have storage, or why lowered code stays inside its frame.
-/

namespace IncrementalC.Machine

/-! ## Names of a store -/

namespace GlobalStore

theorem keys_assign (store : GlobalStore) (name : String) (value : Int64) :
    (store.assign name value).map Prod.fst = store.map Prod.fst := by
  unfold assign
  rw [List.map_map]
  apply List.map_congr_left
  intro entry _
  show (if entry.1 = name then (name, value) else entry).1 = entry.1
  split
  · next same => exact same.symm
  · rfl

theorem get?_eq_none_iff {store : GlobalStore} {name : String} :
    store.get? name = none ↔ name ∉ store.map Prod.fst := by
  unfold get?
  rw [Option.map_eq_none_iff, List.find?_eq_none, List.mem_map]
  constructor
  · rintro other ⟨entry, member, same⟩
    exact other entry member (decide_eq_true same)
  · intro absent entry member same
    exact absent ⟨entry, member, of_decide_eq_true same⟩

theorem contains_iff {store : GlobalStore} {name : String} :
    store.contains name = true ↔ name ∈ store.map Prod.fst := by
  unfold contains
  rw [List.any_eq_true, List.mem_map]
  simp

end GlobalStore

/-! ## Variables -/

section

variable {σ : Type} {state : State σ} {name : String}

theorem readGlobal_stored {value : Int64} (stored : state.globals.get? name = some value) :
    readGlobal name state = .ok value state := by
  show EStateM.run (readGlobal name) state = _
  simp only [readGlobal, EStateM.run_bind, EStateM.run_get, stored]
  rfl

theorem readGlobal_absent (absent : state.globals.get? name = none) :
    readGlobal name state = .error (.fault (.unresolved name)) state := by
  show EStateM.run (readGlobal name) state = _
  simp only [readGlobal, EStateM.run_bind, EStateM.run_get, absent]
  rfl

theorem writeGlobal_stored (stored : state.globals.contains name = true) (value : Int64) :
    writeGlobal name value state =
      .ok () { state with globals := state.globals.assign name value } := by
  show EStateM.run (writeGlobal name value) state = _
  simp only [writeGlobal, EStateM.run_bind, EStateM.run_get, if_pos stored]
  rfl

theorem writeGlobal_absent (absent : ¬state.globals.contains name = true) (value : Int64) :
    writeGlobal name value state = .error (.fault (.unresolved name)) state := by
  show EStateM.run (writeGlobal name value) state = _
  simp only [writeGlobal, EStateM.run_bind, EStateM.run_get, if_neg absent]
  rfl

end

/-! ## Slots -/

section

variable {σ : Type} {activation : Activation σ} {slot : Nat}

theorem readSlot_inside {value : Int64} (inside : activation.frame[slot]? = some value) :
    readSlot slot activation = .ok value activation := by
  show EStateM.run (readSlot slot) activation = _
  simp only [readSlot, EStateM.run_bind, EStateM.run_get, inside]
  rfl

theorem readSlot_outside (outside : activation.frame[slot]? = none) :
    readSlot slot activation =
      .error (.breakdown (.slotOutsideFrame slot activation.frame.size)) activation := by
  show EStateM.run (readSlot slot) activation = _
  simp only [readSlot, EStateM.run_bind, EStateM.run_get, outside]
  rfl

theorem writeSlot_inside (inside : slot < activation.frame.size) (value : Int64) :
    writeSlot slot value activation =
      .ok () { activation with frame := activation.frame.setIfInBounds slot value } :=
  if_pos inside

theorem writeSlot_outside (outside : ¬slot < activation.frame.size) (value : Int64) :
    writeSlot slot value activation =
      .error (.breakdown (.slotOutsideFrame slot activation.frame.size)) activation :=
  if_neg outside

end

end IncrementalC.Machine

/-! ## The slots that code uses -/

namespace IncrementalC

namespace Code

mutual

/-- The slots that an expression reads and writes. -/
def Expression.slots : Expression → List Nat
  | .integer _ | .global _ => []
  | .slot index => [index]
  | .assignSlot index value => index :: value.slots
  | .assignGlobal _ value | .atExit _ value | .unary _ value => value.slots
  | .call _ arguments => Expression.listSlots arguments
  | .binary _ left right | .and left right | .or left right => left.slots ++ right.slots

def Expression.listSlots : List Expression → List Nat
  | [] => []
  | head :: tail => head.slots ++ Expression.listSlots tail

end

mutual

/-- The slots that a statement reads and writes. -/
def Statement.slots : Statement → List Nat
  | .evaluate value => value.slots
  | .store index value => index :: value.slots
  | .choose condition whenTrue whenFalse =>
    condition.slots ++ Statement.listSlots whenTrue ++ Statement.listSlots whenFalse
  | .loop condition body => condition.slots ++ Statement.listSlots body
  | .leave (some value) => value.slots
  | .leave none => []

def Statement.listSlots : List Statement → List Nat
  | [] => []
  | head :: tail => head.slots ++ Statement.listSlots tail

end

theorem Statement.listSlots_append (first second : List Statement) :
    Statement.listSlots (first ++ second) =
      Statement.listSlots first ++ Statement.listSlots second := by
  induction first with
  | nil => rfl
  | cons head tail inductionHypothesis =>
    simp only [List.cons_append, Statement.listSlots, inductionHypothesis, List.append_assoc]

theorem Statement.listSlots_singleton (statement : Statement) :
    Statement.listSlots [statement] = statement.slots := List.append_nil _

/-- The number of slots in the frame of a call. -/
def Function.room (function : Function) : Nat := max function.frameSize function.parameters

end Code

theorem Machine.size_callFrame (function : Code.Function) (arguments : List Int64) :
    (callFrame function arguments).size = function.room := by
  have short : (arguments.take function.parameters).length ≤ function.parameters :=
    List.length_take_le _ _
  simp only [callFrame, Code.Function.room, List.size_toArray, List.length_append,
    List.length_replicate]
  omega

/-! ## Fitting -/

/-- The slots lie in a frame of the size, or leaving the frame there is allowed. -/
def FitsFrame (allowed : Stop → Prop) (size : Nat) (slots : List Nat) : Prop :=
  ∀ slot ∈ slots, slot < size ∨ allowed (.breakdown (.slotOutsideFrame slot size))

/-- No code of the unit leaves its frame, unless that is allowed. -/
structure CodeUnit.Fits (allowed : Stop → Prop) (unit : CodeUnit) : Prop where
  functions : ∀ function ∈ unit.functions,
    FitsFrame allowed function.room (Code.Statement.listSlots function.body)
  initializers : ∀ initializer ∈ unit.initializers, FitsFrame allowed 0 initializer.value.slots

/-- No code of the unit leaves its frame. -/
def CodeUnit.Framed (unit : CodeUnit) : Prop := unit.Fits fun _ => False

section

variable {allowed weaker : Stop → Prop} {size : Nat} {unit : CodeUnit}

theorem fitsFrame_append_iff {first second : List Nat} :
    FitsFrame allowed size (first ++ second) ↔
      FitsFrame allowed size first ∧ FitsFrame allowed size second :=
  List.forall_mem_append

theorem fitsFrame_cons_iff {slot : Nat} {slots : List Nat} :
    FitsFrame allowed size (slot :: slots) ↔
      (slot < size ∨ allowed (.breakdown (.slotOutsideFrame slot size))) ∧
        FitsFrame allowed size slots :=
  List.forall_mem_cons

theorem FitsFrame.mono {slots : List Nat} (fits : FitsFrame allowed size slots)
    (weakens : ∀ stop, allowed stop → weaker stop) : FitsFrame weaker size slots :=
  fun slot member => (fits slot member).imp_right (weakens _)

theorem CodeUnit.Fits.mono (fits : unit.Fits allowed)
    (weakens : ∀ stop, allowed stop → weaker stop) : unit.Fits weaker where
  functions function member := (fits.functions function member).mono weakens
  initializers initializer member := (fits.initializers initializer member).mono weakens

theorem CodeUnit.Framed.fits (framed : unit.Framed) (allowed : Stop → Prop) : unit.Fits allowed :=
  framed.mono fun _ => False.elim

theorem CodeUnit.fits_of_allowed (leaves : ∀ slot size,
    allowed (.breakdown (.slotOutsideFrame slot size))) (unit : CodeUnit) : unit.Fits allowed where
  functions _ _ slot _ := .inr (leaves slot _)
  initializers _ _ slot _ := .inr (leaves slot _)

theorem CodeUnit.framed_empty (transaction : Option TransactionId) :
    (empty transaction).Framed where
  functions _ member := absurd member List.not_mem_nil
  initializers _ member := absurd member List.not_mem_nil

end

end IncrementalC
