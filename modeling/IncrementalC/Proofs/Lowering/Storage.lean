import Mathlib.Data.List.Forall2
import Mathlib.Data.List.Nodup
import IncrementalC.Analysis.Scope
import IncrementalC.Proofs.Lowering.Meaning
import IncrementalC.Proofs.Machine.Storage

/-!
Contract: scopes of variables against frames of slots.

While a body is lowered, every visible variable has a slot that no other visible
variable has. While it runs, the slot holds the value of the variable.

Owns: separate slots, frames that represent scopes, and computations on a frame that
simulate computations on scopes.

Does not own: which code is lowered to which.
-/

namespace IncrementalC

namespace Analysis

/-- The slots of the visible variables. -/
def Frames.slots (frames : Frames) : List Nat := frames.flatten.map Prod.snd

/-- No two visible variables share a slot, and all slots are below `bound`. -/
structure Frames.Separate (frames : Frames) (bound : Nat) : Prop where
  distinct : frames.slots.Nodup
  below : ∀ slot ∈ frames.slots, slot < bound

theorem mem_slots_of_slotIn? {frame : List (String × Nat)} {name : String} {slot : Nat}
    (found : slotIn? frame name = some slot) : slot ∈ frame.map Prod.snd := by
  obtain ⟨entry, entryFound, rfl⟩ := Option.map_eq_some_iff.mp found
  exact List.mem_map_of_mem (List.mem_of_find?_eq_some entryFound)

theorem mem_slots_of_slot? {frames : Frames} {name : String} {slot : Nat}
    (found : frames.slot? name = some slot) : slot ∈ frames.slots := by
  obtain ⟨frame, member, inFrame⟩ := List.exists_of_findSome?_eq_some found
  obtain ⟨entry, entryMember, rfl⟩ := List.mem_map.mp (mem_slots_of_slotIn? inFrame)
  exact List.mem_map_of_mem (List.mem_flatten.mpr ⟨frame, member, entryMember⟩)

theorem slot?_cons (frame : List (String × Nat)) (outer : Frames) (name : String) :
    Frames.slot? (frame :: outer) name = (slotIn? frame name).or (Frames.slot? outer name) := by
  unfold Frames.slot?
  rw [List.findSome?_cons]
  cases slotIn? frame name <;> rfl

theorem slots_cons (frame : List (String × Nat)) (outer : Frames) :
    Frames.slots (frame :: outer) = frame.map Prod.snd ++ Frames.slots outer := by
  simp [Frames.slots]

theorem Frames.Separate.tail {frame : List (String × Nat)} {outer : Frames} {bound : Nat}
    (separate : Frames.Separate (frame :: outer) bound) : Frames.Separate outer bound := by
  have distinct := separate.distinct
  have below := separate.below
  rw [slots_cons] at distinct below
  exact ⟨(List.nodup_append.mp distinct).2.1,
    fun slot member => below slot (List.mem_append_right _ member)⟩

theorem Frames.Separate.mono {frames : Frames} {bound larger : Nat}
    (separate : frames.Separate bound) (le : bound ≤ larger) : frames.Separate larger :=
  ⟨separate.distinct, fun slot member => Nat.lt_of_lt_of_le (separate.below slot member) le⟩

end Analysis

namespace Meaning

open Analysis (Frames slotIn?)
open Machine (Run State Activation)

/-! ## Representation -/

/-- The variable stands in its slot. -/
def Stored (array : Array Int64) (slot : String × Nat) (entry : String × Int64) : Prop :=
  slot.1 = entry.1 ∧ array[slot.2]? = some entry.2

/-- Every visible variable stands in its slot. -/
def Represents (frames : Frames) (scopes : Scopes) (array : Array Int64) : Prop :=
  List.Forall₂ (List.Forall₂ (Stored array)) frames scopes

theorem valueIn?_eq {array : Array Int64} {frame : List (String × Nat)}
    {block : List (String × Int64)} (stored : List.Forall₂ (Stored array) frame block)
    (name : String) :
    valueIn? block name = (slotIn? frame name).bind fun slot => array[slot]? := by
  unfold valueIn? slotIn?
  induction stored with
  | nil => rfl
  | @cons slot entry frame block here _ inductionHypothesis =>
    obtain ⟨sameName, value⟩ := here
    by_cases found : entry.1 = name
    · have foundSlot : slot.1 = name := sameName.trans found
      simp [found, foundSlot, value]
    · have otherSlot : slot.1 ≠ name := fun equal => found (sameName ▸ equal)
      simpa [found, otherSlot] using inductionHypothesis

theorem isSome_valueIn? {array : Array Int64} {frame : List (String × Nat)}
    {block : List (String × Int64)} (stored : List.Forall₂ (Stored array) frame block)
    (name : String) : (valueIn? block name).isSome = (slotIn? frame name).isSome := by
  unfold valueIn? slotIn?
  induction stored with
  | nil => rfl
  | @cons slot entry frame block here _ inductionHypothesis =>
    by_cases found : entry.1 = name
    · simp [found, here.1.trans found]
    · have otherSlot : slot.1 ≠ name := fun equal => found (here.1 ▸ equal)
      simpa [found, otherSlot] using inductionHypothesis

/-- A name denotes the same variable in the scopes and in the frame. -/
theorem value?_eq {frames : Frames} {scopes : Scopes} {array : Array Int64}
    (represents : Represents frames scopes array) (name : String) :
    scopes.value? name = (frames.slot? name).bind fun slot => array[slot]? := by
  induction represents with
  | nil => rfl
  | @cons frame block outerFrames outer here _ inductionHypothesis =>
    rw [Analysis.slot?_cons]
    have inBlock := valueIn?_eq here name
    have sameSome := isSome_valueIn? here name
    unfold Scopes.value? at inductionHypothesis ⊢
    rw [List.findSome?_cons]
    cases found : slotIn? frame name with
    | none =>
      rw [found] at sameSome
      have absent : valueIn? block name = none :=
        Option.isNone_iff_eq_none.mp (Option.isSome_eq_false_iff.mp sameSome)
      rw [absent]
      simpa using inductionHypothesis
    | some slot =>
      rw [found] at inBlock sameSome
      obtain ⟨value, hasValue⟩ := Option.isSome_iff_exists.mp sameSome
      rw [hasValue] at inBlock ⊢
      simpa using inBlock

/-! ## Assignment -/

theorem stored_set_of_notMem {array : Array Int64} {frame : List (String × Nat)}
    {block : List (String × Int64)} (stored : List.Forall₂ (Stored array) frame block)
    {slot : Nat} (absent : slot ∉ frame.map Prod.snd) (value : Int64) :
    List.Forall₂ (Stored (array.setIfInBounds slot value)) frame block := by
  induction stored with
  | nil => exact .nil
  | @cons head entry frame block here _ inductionHypothesis =>
    simp only [List.map_cons, List.mem_cons, not_or] at absent
    refine .cons ⟨here.1, ?_⟩ (inductionHypothesis absent.2)
    rw [Array.getElem?_setIfInBounds_ne absent.1]
    exact here.2

theorem stored_set {array : Array Int64} {frame : List (String × Nat)}
    {block : List (String × Int64)} (stored : List.Forall₂ (Stored array) frame block)
    (distinct : (frame.map Prod.snd).Nodup) {name : String} {slot : Nat}
    (found : slotIn? frame name = some slot) (inside : slot < array.size) (value : Int64) :
    List.Forall₂ (Stored (array.setIfInBounds slot value)) frame (assignIn name value block) := by
  induction stored with
  | nil => exact absurd found (by simp [slotIn?])
  | @cons head entry frame block here rest inductionHypothesis =>
    obtain ⟨headAbsent, restDistinct⟩ := List.nodup_cons.mp distinct
    by_cases same : head.1 = name
    · obtain rfl : head.2 = slot := by simpa [slotIn?, same] using found
      have sameEntry : entry.1 = name := here.1.symm.trans same
      simp only [assignIn, if_pos sameEntry]
      refine .cons ⟨same, ?_⟩ (stored_set_of_notMem rest headAbsent value)
      exact Array.getElem?_setIfInBounds_self_of_lt inside
    · have other : entry.1 ≠ name := fun equal => same (here.1.trans equal)
      have later : slotIn? frame name = some slot := by simpa [slotIn?, same] using found
      simp only [assignIn, if_neg other]
      refine .cons ⟨here.1, ?_⟩ (inductionHypothesis restDistinct later)
      have differs : slot ≠ head.2 := by
        rintro rfl
        exact headAbsent (Analysis.mem_slots_of_slotIn? later)
      rw [Array.getElem?_setIfInBounds_ne differs]
      exact here.2

theorem represents_set_of_notMem {frames : Frames} {scopes : Scopes} {array : Array Int64}
    (represents : Represents frames scopes array) {slot : Nat} (absent : slot ∉ frames.slots)
    (value : Int64) : Represents frames scopes (array.setIfInBounds slot value) := by
  induction represents with
  | nil => exact .nil
  | cons here _ inductionHypothesis =>
    rw [Analysis.slots_cons, List.mem_append, not_or] at absent
    exact .cons (stored_set_of_notMem here absent.1 value) (inductionHypothesis absent.2)

/-- Writing the slot of a variable assigns to the variable and to no other one. -/
theorem represents_set {frames : Frames} {scopes : Scopes} {array : Array Int64} {bound : Nat}
    (represents : Represents frames scopes array) (separate : frames.Separate bound)
    {name : String} {slot : Nat} (found : frames.slot? name = some slot)
    (inside : slot < array.size) (value : Int64) :
    Represents frames (scopes.assign name value) (array.setIfInBounds slot value) := by
  induction represents with
  | nil => exact absurd found (by simp [Frames.slot?])
  | @cons frame block outerFrames outer here rest inductionHypothesis =>
    have distinct := separate.distinct
    rw [Analysis.slots_cons] at distinct
    obtain ⟨frameDistinct, -, apart⟩ := List.nodup_append.mp distinct
    rw [Analysis.slot?_cons] at found
    have sameSome := isSome_valueIn? here name
    cases inFrame : slotIn? frame name with
    | some own =>
      obtain rfl : own = slot := by simpa [inFrame] using found
      rw [inFrame] at sameSome
      simp only [Scopes.assign, sameSome, Option.isSome_some, if_true]
      refine .cons (stored_set here frameDistinct inFrame inside value)
        (represents_set_of_notMem rest ?_ value)
      intro member
      exact apart own (Analysis.mem_slots_of_slotIn? inFrame) own member rfl
    | none =>
      have later : Frames.slot? outerFrames name = some slot := by simpa [inFrame] using found
      rw [inFrame] at sameSome
      simp only [Scopes.assign, sameSome, Option.isSome_none, Bool.false_eq_true, if_false]
      refine .cons (stored_set_of_notMem here ?_ value) (inductionHypothesis separate.tail later)
      intro member
      exact apart slot member slot (Analysis.mem_slots_of_slot? later) rfl

/-! ## Simulation -/

variable {σ α β : Type} {frames : Frames} {size : Nat}

/-- The running function has all variables of the memory in its frame. -/
structure Holds (frames : Frames) (size : Nat) (memory : Memory σ) (activation : Activation σ) :
    Prop where
  represents : Represents frames memory.scopes activation.frame
  size : activation.frame.size = size
  state : memory.state = activation.state

/-- Both computations end alike. After a stop only the shared state counts. -/
inductive Corresponds (frames : Frames) (size : Nat) :
    EStateM.Result Stop (Memory σ) α → EStateM.Result Stop (Activation σ) α → Prop where
  | ok {memory : Memory σ} {activation : Activation σ} (value : α)
      (holds : Holds frames size memory activation) :
      Corresponds frames size (.ok value memory) (.ok value activation)
  | error {memory : Memory σ} {activation : Activation σ} (stop : Stop)
      (state : memory.state = activation.state) :
      Corresponds frames size (.error stop memory) (.error stop activation)

/-- The computation on the frame does what the one on the scopes does. -/
def Simulates (frames : Frames) (size : Nat) (reference : Run (Memory σ) α)
    (lowered : Run (Activation σ) α) : Prop :=
  ∀ memory activation, Holds frames size memory activation →
    Corresponds frames size (reference memory) (lowered activation)

theorem Simulates.pure (value : α) :
    Simulates (σ := σ) frames size (Pure.pure value) (Pure.pure value) :=
  fun _ _ holds => .ok value holds

theorem Simulates.bind {reference : Run (Memory σ) α} {lowered : Run (Activation σ) α}
    {referenceNext : α → Run (Memory σ) β} {loweredNext : α → Run (Activation σ) β}
    (first : Simulates frames size reference lowered)
    (next : ∀ value, Simulates frames size (referenceNext value) (loweredNext value)) :
    Simulates frames size (reference >>= referenceNext) (lowered >>= loweredNext) := by
  intro memory activation holds
  have ended := first memory activation holds
  show Corresponds frames size (EStateM.bind reference referenceNext memory)
    (EStateM.bind lowered loweredNext activation)
  unfold EStateM.bind
  generalize reference memory = referenceEnd at ended ⊢
  generalize lowered activation = loweredEnd at ended ⊢
  cases ended with
  | ok value after => exact next value _ _ after
  | error stop state => exact .error stop state

theorem Simulates.fault (fault : Fault) :
    Simulates (σ := σ) (α := α) frames size (Machine.faultWith fault)
      (Machine.faultWith fault) :=
  fun _ _ holds => .error _ holds.state

/-- What happens on the shared state happens alike. -/
theorem Simulates.outside (computation : Run (State σ) α) :
    Simulates frames size (outsideScopes computation) (Machine.outsideFrame computation) := by
  rintro ⟨scopes, state⟩ ⟨frame, shared⟩ ⟨represents, sameSize, sameState⟩
  obtain rfl : state = shared := sameState
  simp only [outsideScopes, Machine.outsideFrame]
  cases computation state with
  | ok value after => exact .ok value ⟨represents, sameSize, rfl⟩
  | error stop after => exact .error stop rfl

section

variable {reference : Run (Memory σ) α} {lowered : Run (Activation σ) α} {memory after : Memory σ}
  {activation final : Activation σ} {value : α} {stop : Stop}

theorem Simulates.ok (simulates : Simulates frames size reference lowered)
    (holds : Holds frames size memory activation) (computed : reference memory = .ok value after) :
    ∃ final, lowered activation = .ok value final ∧ Holds frames size after final := by
  have ended := simulates memory activation holds
  rw [computed] at ended
  generalize lowered activation = result at ended ⊢
  cases ended with
  | ok value holds => exact ⟨_, rfl, holds⟩

theorem Simulates.error (simulates : Simulates frames size reference lowered)
    (holds : Holds frames size memory activation) (stopped : reference memory = .error stop after) :
    ∃ final, lowered activation = .error stop final ∧ after.state = final.state := by
  have ended := simulates memory activation holds
  rw [stopped] at ended
  generalize lowered activation = result at ended ⊢
  cases ended with
  | error stop state => exact ⟨_, rfl, state⟩

theorem Simulates.of_ok (simulates : Simulates frames size reference lowered)
    (holds : Holds frames size memory activation) (computed : lowered activation = .ok value final) :
    ∃ after, reference memory = .ok value after ∧ Holds frames size after final := by
  have ended := simulates memory activation holds
  rw [computed] at ended
  generalize reference memory = result at ended ⊢
  cases ended with
  | ok value holds => exact ⟨_, rfl, holds⟩

theorem Simulates.of_error (simulates : Simulates frames size reference lowered)
    (holds : Holds frames size memory activation)
    (stopped : lowered activation = .error stop final) :
    ∃ after, reference memory = .error stop after ∧ after.state = final.state := by
  have ended := simulates memory activation holds
  rw [stopped] at ended
  generalize reference memory = result at ended ⊢
  cases ended with
  | error stop state => exact ⟨_, rfl, state⟩

end

/-! ## Variables -/

theorem readVariable_local {name : String} {slot : Nat} (found : frames.slot? name = some slot)
    (inside : slot < size) :
    Simulates (σ := σ) frames size (readVariable name) (Machine.readSlot slot) := by
  intro memory activation holds
  have bound : slot < activation.frame.size := by rw [holds.size]; exact inside
  have stored : activation.frame[slot]? = some activation.frame[slot] :=
    Array.getElem?_eq_getElem bound
  have value : memory.scopes.value? name = some activation.frame[slot] := by
    rw [value?_eq holds.represents, found, Option.bind_some, stored]
  have reference : readVariable name memory = .ok activation.frame[slot] memory := by
    simp only [readVariable, value]
  rw [reference, Machine.readSlot_inside stored]
  exact .ok _ holds

theorem readVariable_global {name : String} (absent : frames.slot? name = none) :
    Simulates (σ := σ) frames size (readVariable name)
      (Machine.outsideFrame (Machine.readGlobal name)) := by
  intro memory activation holds
  have unbound : memory.scopes.value? name = none := by
    rw [value?_eq holds.represents, absent, Option.bind_none]
  have reference : readVariable name memory =
      outsideScopes (Machine.readGlobal name) memory := by
    simp only [readVariable, unbound]
  rw [reference]
  exact Simulates.outside _ memory activation holds

theorem writeVariable_local {name : String} {slot bound : Nat}
    (separate : frames.Separate bound) (found : frames.slot? name = some slot)
    (inside : slot < size) (value : Int64) :
    Simulates (σ := σ) frames size (writeVariable name value) (Machine.writeSlot slot value) := by
  rintro ⟨scopes, state⟩ ⟨frame, shared⟩ ⟨represents, sameSize, sameState⟩
  have room : slot < frame.size := by
    rw [show frame.size = size from sameSize]
    exact inside
  have old : scopes.value? name = some frame[slot] := by
    rw [value?_eq represents, found, Option.bind_some, Array.getElem?_eq_getElem room]
  simp only [writeVariable, old, Machine.writeSlot, if_pos room]
  refine .ok () ⟨represents_set represents separate found room value, ?_, sameState⟩
  rw [Array.size_setIfInBounds]
  exact sameSize

theorem writeVariable_global {name : String} (absent : frames.slot? name = none)
    (value : Int64) :
    Simulates (σ := σ) frames size (writeVariable name value)
      (Machine.outsideFrame (Machine.writeGlobal name value)) := by
  intro memory activation holds
  have unbound : memory.scopes.value? name = none := by
    rw [value?_eq holds.represents, absent, Option.bind_none]
  have reference : writeVariable name value memory =
      outsideScopes (Machine.writeGlobal name value) memory := by
    simp only [writeVariable, unbound]
  rw [reference]
  exact Simulates.outside _ memory activation holds

end Meaning

end IncrementalC
