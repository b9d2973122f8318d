import IncrementalC.Proofs.Machine.Running

/-!
Contract: running code looks at nothing but the names that it uses.

Code reaches what is outside its frame by name only. What is seen of a state through a view
that all its uses of names respect is therefore what the same code makes of the view. Code
hands its host on to the services and never reads it, so the calls of a service can be
noted beside the host, and the run stays what it was.

Owns: computations that mirror each other, the rule for running what stands at an
address, what services keep, and services that note the registrations.

Does not own: what the services of an engine do with a registration.
-/

namespace IncrementalC.Machine

open Code (Expression Statement Use)

/-! ## Computations that mirror each other -/

/-- The same end, with what is seen of the state. -/
def seen {S T α : Type} (view : S → T) :
    EStateM.Result Stop S α → EStateM.Result Stop T α
  | .ok value after => .ok value (view after)
  | .error stop after => .error stop (view after)

/-- From what is seen of a state, the mirror comes to what is seen of the end, unless the
computation is cut off. -/
def Mirrors {S T α : Type} (cut : Stop → Prop) (view : S → T) (computation : Run S α)
    (mirror : Run T α) : Prop :=
  ∀ state, (∃ stop after, computation state = .error stop after ∧ cut stop) ∨
    mirror (view state) = seen view (computation state)

section

variable {S T α β : Type} {cut : Stop → Prop} {view : S → T}

theorem Mirrors.of_eq {computation : Run S α} {mirror : Run T α}
    (same : ∀ state, mirror (view state) = seen view (computation state)) :
    Mirrors cut view computation mirror :=
  fun state => .inr (same state)

/-- A computation that is never cut off has its mirror. -/
theorem Mirrors.eq {computation : Run S α} {mirror : Run T α}
    (mirrors : Mirrors (fun _ => False) view computation mirror) (state : S) :
    mirror (view state) = seen view (computation state) :=
  (mirrors state).resolve_left fun ⟨_, _, _, never⟩ => never

theorem Mirrors.pure (value : α) : Mirrors cut view (Pure.pure value) (Pure.pure value) :=
  .of_eq fun _ => rfl

theorem Mirrors.stop (stop : Stop) : Mirrors cut view (throw stop : Run S α) (throw stop) :=
  .of_eq fun _ => rfl

theorem Mirrors.bind {computation : Run S α} {mirror : Run T α} {next : α → Run S β}
    {mirrorNext : α → Run T β} (first : Mirrors cut view computation mirror)
    (rest : ∀ value, Mirrors cut view (next value) (mirrorNext value)) :
    Mirrors cut view (computation >>= next) (mirror >>= mirrorNext) := by
  intro state
  show (∃ stop after, EStateM.bind computation next state = .error stop after ∧ cut stop) ∨
    EStateM.bind mirror mirrorNext (view state) = seen view (EStateM.bind computation next state)
  unfold EStateM.bind
  rcases first state with ⟨stop, after, stopped, isCut⟩ | same
  · exact .inl ⟨stop, after, by rw [stopped], isCut⟩
  · rw [same]
    cases computation state with
    | ok value after => exact rest value after
    | error stop after => exact .inr rfl

end

/-! ## States and frames -/

/-- What is seen of a state when only its host is looked at differently. -/
def State.view {σ τ : Type} (view : σ → τ) (state : State σ) : State τ :=
  ⟨state.globals, view state.host⟩

def Activation.view {σ τ : Type} (view : State σ → State τ) (activation : Activation σ) :
    Activation τ :=
  ⟨activation.frame, view activation.state⟩

section

variable {σ τ α : Type} {cut : Stop → Prop} {view : State σ → State τ}

theorem Mirrors.outsideFrame {computation : Run (State σ) α} {mirror : Run (State τ) α}
    (mirrors : Mirrors cut view computation mirror) :
    Mirrors cut (Activation.view view) (Machine.outsideFrame computation)
      (Machine.outsideFrame mirror) := by
  rintro ⟨frame, state⟩
  simp only [Machine.outsideFrame, Activation.view]
  rcases mirrors state with ⟨stop, after, stopped, isCut⟩ | same
  · exact .inl ⟨stop, ⟨frame, after⟩, by rw [stopped], isCut⟩
  · rw [same]
    cases computation state <;> exact .inr rfl

theorem Mirrors.insideFrame {computation : Run (Activation σ) α} {mirror : Run (Activation τ) α}
    (mirrors : Mirrors cut (Activation.view view) computation mirror) (frame : Array Int64) :
    Mirrors cut view (Machine.insideFrame frame computation)
      (Machine.insideFrame frame mirror) := by
  intro state
  simp only [Machine.insideFrame]
  rcases mirrors ⟨frame, state⟩ with ⟨stop, after, stopped, isCut⟩ | same
  · exact .inl ⟨stop, after.state, by rw [stopped], isCut⟩
  · simp only [Activation.view] at same
    rw [same]
    cases computation ⟨frame, state⟩ <;> exact .inr rfl

/-- The view shows the value of the variable as it is. -/
def Shows (view : State σ → State τ) (name : String) : Prop :=
  ∀ state, (view state).globals.get? name = state.globals.get? name

/-- The view shows what is written to the variable. -/
def ShowsWrites (view : State σ → State τ) (name : String) : Prop :=
  ∀ state : State σ, (view state).globals.contains name = state.globals.contains name ∧
    ∀ value, view { state with globals := state.globals.assign name value } =
      { view state with globals := (view state).globals.assign name value }

theorem readGlobal_mirrors {name : String} (shown : Shows view name) :
    Mirrors cut view (readGlobal name) (readGlobal name) := by
  refine .of_eq fun state => ?_
  have viewed := shown state
  cases stored : state.globals.get? name with
  | some value =>
    rw [stored] at viewed
    rw [readGlobal_stored stored, readGlobal_stored viewed]
    rfl
  | none =>
    rw [stored] at viewed
    rw [readGlobal_absent stored, readGlobal_absent viewed]
    rfl

theorem writeGlobal_mirrors {name : String} (shown : ShowsWrites view name) (value : Int64) :
    Mirrors cut view (writeGlobal name value) (writeGlobal name value) := by
  refine .of_eq fun state => ?_
  obtain ⟨same, written⟩ := shown state
  by_cases stored : state.globals.contains name
  · rw [writeGlobal_stored stored, writeGlobal_stored (same.trans stored), ← written]
    rfl
  · rw [writeGlobal_absent stored, writeGlobal_absent (same ▸ stored)]
    rfl

theorem readSlot_mirrors (slot : Nat) :
    Mirrors cut (Activation.view view) (readSlot slot) (readSlot slot) := by
  refine .of_eq fun activation => ?_
  cases stored : activation.frame[slot]? with
  | some value =>
    have viewed : (activation.view view).frame[slot]? = some value := stored
    rw [readSlot_inside stored, readSlot_inside viewed]
    rfl
  | none =>
    have viewed : (activation.view view).frame[slot]? = none := stored
    rw [readSlot_outside stored, readSlot_outside viewed]
    rfl

theorem writeSlot_mirrors (slot : Nat) (value : Int64) :
    Mirrors cut (Activation.view view) (writeSlot slot value) (writeSlot slot value) := by
  refine .of_eq fun activation => ?_
  by_cases inside : slot < activation.frame.size
  · have viewed : slot < (activation.view view).frame.size := inside
    rw [writeSlot_inside inside, writeSlot_inside viewed]
    rfl
  · have viewed : ¬slot < (activation.view view).frame.size := inside
    rw [writeSlot_outside inside, writeSlot_outside viewed]
    rfl

theorem repeatWhile_mirrors {condition : Run (Activation σ) Int64}
    {mirrorCondition : Run (Activation τ) Int64} {body : Run (Activation σ) Flow}
    {mirrorBody : Run (Activation τ) Flow}
    (tested : Mirrors cut (Activation.view view) condition mirrorCondition)
    (round : Mirrors cut (Activation.view view) body mirrorBody) (rounds : Nat) :
    Mirrors cut (Activation.view view) (repeatWhile condition body rounds)
      (repeatWhile mirrorCondition mirrorBody rounds) := by
  induction rounds with
  | zero => exact .of_eq fun _ => rfl
  | succ rounds inductionHypothesis =>
    intro activation
    simp only [repeatWhile]
    rcases tested activation with ⟨stop, after, stopped, isCut⟩ | sameTest
    · exact .inl ⟨stop, after, by rw [stopped], isCut⟩
    rw [sameTest]
    cases condition activation with
    | error stop after => exact .inr rfl
    | ok value after =>
      simp only [seen]
      by_cases zero : value = 0
      · simp only [if_pos zero, or_true]
      · simp only [if_neg zero]
        rcases round after with ⟨stop, final, stopped, isCut⟩ | sameRound
        · exact .inl ⟨stop, final, by rw [stopped], isCut⟩
        rw [sameRound]
        cases body after with
        | error stop final => exact .inr rfl
        | ok flow final =>
          cases flow with
          | returned result => exact .inr rfl
          | normal => exact inductionHypothesis final

end

/-! ## Code -/

/-- What code reaches by permitted uses through the second linkage mirrors what it reaches
through the first, unless that is cut off. -/
structure Linkage.Mirrored {σ τ : Type} (cut : Stop → Prop) (view : State σ → State τ)
    (permitted : Use → Prop) (linkage : Linkage σ) (mirror : Linkage τ) : Prop where
  read : ∀ name, permitted (.read name) → Shows view name
  write : ∀ name, permitted (.write name) → ShowsWrites view name
  call : ∀ name, permitted (.call name) → ∀ arguments,
    Mirrors cut view (linkage.call name arguments) (mirror.call name arguments)
  register : ∀ name, permitted (.register name) → ∀ argument,
    Mirrors cut view (linkage.registerAtExit name argument) (mirror.registerAtExit name argument)
  rounds : mirror.rounds = linkage.rounds

section

variable {σ τ : Type} {cut : Stop → Prop} {view : State σ → State τ} {permitted : Use → Prop}
  {linkage : Linkage σ} {mirror : Linkage τ}

mutual

theorem evaluate_mirrors (mirrored : linkage.Mirrored cut view permitted mirror) :
    ∀ expression : Expression, (∀ use ∈ expression.uses, permitted use) →
      Mirrors cut (Activation.view view) (evaluate linkage expression)
        (evaluate mirror expression)
  | .integer value => fun _ => Mirrors.pure value
  | .slot slot => fun _ => readSlot_mirrors slot
  | .global name => fun uses =>
    (readGlobal_mirrors (mirrored.read name (uses _ (List.mem_singleton_self _)))).outsideFrame
  | .assignSlot slot value => by
    intro uses
    simp only [evaluate]
    refine (evaluate_mirrors mirrored value uses).bind fun result => ?_
    exact (writeSlot_mirrors slot result).bind fun _ => Mirrors.pure result
  | .assignGlobal name value => by
    intro uses
    simp only [Expression.uses, List.forall_mem_cons] at uses
    simp only [evaluate]
    refine (evaluate_mirrors mirrored value uses.2).bind fun result => ?_
    exact (writeGlobal_mirrors (mirrored.write name uses.1) result).outsideFrame.bind fun _ =>
      Mirrors.pure result
  | .call callee arguments => by
    intro uses
    simp only [Expression.uses, List.forall_mem_cons] at uses
    simp only [evaluate]
    refine (evaluateAll_mirrors mirrored arguments uses.2).bind fun values => ?_
    exact (mirrored.call callee uses.1 values).outsideFrame
  | .atExit function argument => by
    intro uses
    simp only [Expression.uses, List.forall_mem_cons] at uses
    simp only [evaluate]
    refine (evaluate_mirrors mirrored argument uses.2).bind fun value => ?_
    exact (mirrored.register function uses.1 value).outsideFrame.bind fun _ => Mirrors.pure 0
  | .unary operator operand => by
    intro uses
    simp only [evaluate]
    exact (evaluate_mirrors mirrored operand uses).bind fun value => Mirrors.pure _
  | .binary operator left right => by
    intro uses
    simp only [Expression.uses, List.forall_mem_append] at uses
    simp only [evaluate]
    refine (evaluate_mirrors mirrored left uses.1).bind fun leftValue => ?_
    refine (evaluate_mirrors mirrored right uses.2).bind fun rightValue => ?_
    cases applyStrict operator leftValue rightValue with
    | ok result => exact Mirrors.pure result
    | error fault => exact Mirrors.stop _
  | .and left right => by
    intro uses
    simp only [Expression.uses, List.forall_mem_append] at uses
    simp only [evaluate]
    refine (evaluate_mirrors mirrored left uses.1).bind fun leftValue => ?_
    by_cases zero : leftValue = 0
    · simp only [if_pos zero]
      exact Mirrors.pure 0
    · simp only [if_neg zero]
      exact (evaluate_mirrors mirrored right uses.2).bind fun rightValue => Mirrors.pure _
  | .or left right => by
    intro uses
    simp only [Expression.uses, List.forall_mem_append] at uses
    simp only [evaluate]
    refine (evaluate_mirrors mirrored left uses.1).bind fun leftValue => ?_
    by_cases zero : leftValue = 0
    · simp only [if_pos zero]
      exact (evaluate_mirrors mirrored right uses.2).bind fun rightValue => Mirrors.pure _
    · simp only [if_neg zero]
      exact Mirrors.pure 1

theorem evaluateAll_mirrors (mirrored : linkage.Mirrored cut view permitted mirror) :
    ∀ expressions : List Expression, (∀ use ∈ Expression.listUses expressions, permitted use) →
      Mirrors cut (Activation.view view) (evaluateAll linkage expressions)
        (evaluateAll mirror expressions)
  | [] => fun _ => Mirrors.pure []
  | head :: tail => by
    intro uses
    simp only [Expression.listUses, List.forall_mem_append] at uses
    simp only [evaluateAll]
    refine (evaluate_mirrors mirrored head uses.1).bind fun value => ?_
    exact (evaluateAll_mirrors mirrored tail uses.2).bind fun values => Mirrors.pure _

end

mutual

theorem execute_mirrors (mirrored : linkage.Mirrored cut view permitted mirror) :
    ∀ statement : Statement, (∀ use ∈ statement.uses, permitted use) →
      Mirrors cut (Activation.view view) (execute linkage statement) (execute mirror statement)
  | .evaluate value => by
    intro uses
    simp only [execute]
    exact (evaluate_mirrors mirrored value uses).bind fun _ => Mirrors.pure _
  | .store slot value => by
    intro uses
    simp only [execute]
    refine (evaluate_mirrors mirrored value uses).bind fun result => ?_
    exact (writeSlot_mirrors slot result).bind fun _ => Mirrors.pure _
  | .choose condition whenTrue whenFalse => by
    intro uses
    simp only [Statement.uses, List.forall_mem_append] at uses
    simp only [execute]
    refine (evaluate_mirrors mirrored condition uses.1.1).bind fun value => ?_
    by_cases zero : value = 0
    · simp only [if_pos zero]
      exact executeAll_mirrors mirrored whenFalse uses.2
    · simp only [if_neg zero]
      exact executeAll_mirrors mirrored whenTrue uses.1.2
  | .loop condition body => by
    intro uses
    simp only [Statement.uses, List.forall_mem_append] at uses
    simp only [execute, mirrored.rounds]
    exact repeatWhile_mirrors (evaluate_mirrors mirrored condition uses.1)
      (executeAll_mirrors mirrored body uses.2) linkage.rounds
  | .leave none => fun _ => Mirrors.pure _
  | .leave (some value) => by
    intro uses
    simp only [execute]
    exact (evaluate_mirrors mirrored value uses).bind fun _ => Mirrors.pure _

theorem executeAll_mirrors (mirrored : linkage.Mirrored cut view permitted mirror) :
    ∀ statements : List Statement, (∀ use ∈ Statement.listUses statements, permitted use) →
      Mirrors cut (Activation.view view) (executeAll linkage statements)
        (executeAll mirror statements)
  | [] => fun _ => Mirrors.pure _
  | head :: tail => by
    intro uses
    simp only [Statement.listUses, List.forall_mem_append] at uses
    simp only [executeAll]
    refine (execute_mirrors mirrored head uses.1).bind fun flow => ?_
    cases flow with
    | returned value => exact Mirrors.pure _
    | normal => exact executeAll_mirrors mirrored tail uses.2

end

theorem activate_mirrors (mirrored : linkage.Mirrored cut view permitted mirror)
    (function : Code.Function) (uses : ∀ use ∈ Statement.listUses function.body, permitted use)
    (arguments : List Int64) :
    Mirrors cut view (activate linkage function arguments) (activate mirror function arguments) := by
  unfold activate
  have executed := executeAll_mirrors mirrored function.body uses
  exact (executed.insideFrame _).bind fun _ => Mirrors.pure _

end

/-! ## Functions and addresses -/

section

variable {σ τ : Type} {cut : Stop → Prop} {view : State σ → State τ} {permitted : Use → Prop}
  {machine other : Machine} {services : Services σ} {mirror : Services τ}

/-- Permitted uses on one machine mirror the same uses on another one, and what a permitted
call runs makes permitted uses only. -/
structure Mirrored (cut : Stop → Prop) (view : State σ → State τ) (permitted : Use → Prop)
    (machine : Machine) (services : Services σ) (other : Machine) (mirror : Services τ) :
    Prop where
  rounds : other.limits.loopRounds = machine.limits.loopRounds
  read : ∀ name, permitted (.read name) → Shows view name
  write : ∀ name, permitted (.write name) → ShowsWrites view name
  called : ∀ name, permitted (.call name) → other.function? name = machine.function? name
  native : ∀ name, permitted (.call name) → machine.function? name = none → ∀ arguments,
    Mirrors cut view (callNative services name arguments) (callNative mirror name arguments)
  register : ∀ name, permitted (.register name) → ∀ argument,
    Mirrors cut view (machine.registerAtExit services name argument)
      (other.registerAtExit mirror name argument)
  closed : ∀ name function, permitted (.call name) → machine.function? name = some function →
    ∀ use ∈ Statement.listUses function.body, permitted use

theorem Mirrored.linkage (mirrored : Mirrored cut view permitted machine services other mirror)
    {invoke : Code.Function → List Int64 → Run (State σ) Value}
    {mirrorInvoke : Code.Function → List Int64 → Run (State τ) Value}
    (invoked : ∀ function, (∀ use ∈ Statement.listUses function.body, permitted use) →
      ∀ arguments, Mirrors cut view (invoke function arguments) (mirrorInvoke function arguments)) :
    (machine.linkage services invoke).Mirrored cut view permitted
      (other.linkage mirror mirrorInvoke) where
  read := mirrored.read
  write := mirrored.write
  call name use arguments := by
    simp only [Machine.linkage, mirrored.called name use]
    cases found : machine.function? name with
    | none => exact mirrored.native name use found arguments
    | some function =>
      have uses := mirrored.closed name function use found
      exact (invoked function uses arguments).bind fun _ => Mirrors.pure _
  register := mirrored.register
  rounds := mirrored.rounds

theorem invoke_mirrors (mirrored : Mirrored cut view permitted machine services other mirror)
    (sameDepth : other.limits.callDepth = machine.limits.callDepth) (allowance : Nat)
    (function : Code.Function) (uses : ∀ use ∈ Statement.listUses function.body, permitted use)
    (arguments : List Int64) :
    Mirrors cut view (machine.invoke services allowance function arguments)
      (other.invoke mirror allowance function arguments) := by
  induction allowance generalizing function arguments with
  | zero =>
    unfold invoke
    rw [sameDepth]
    exact Mirrors.stop _
  | succ allowance inductionHypothesis =>
    exact activate_mirrors (mirrored.linkage inductionHypothesis) function uses arguments

/-- What stands at an address runs alike if it is the same code and its uses are permitted. -/
theorem runThrough_mirrors (mirrored : Mirrored cut view permitted machine services other mirror)
    {invoke : Code.Function → List Int64 → Run (State σ) Value}
    {mirrorInvoke : Code.Function → List Int64 → Run (State τ) Value}
    (invoked : ∀ function, (∀ use ∈ Statement.listUses function.body, permitted use) →
      ∀ arguments, Mirrors cut view (invoke function arguments) (mirrorInvoke function arguments))
    (address : Address) (sameModule : other.module? address.module = machine.module? address.module)
    (uses : ∀ use ∈ machine.usesAt address, permitted use)
    (stored : address.kind = .global → ∀ name, Shows view name) (arguments : List Value) :
    Mirrors cut view (machine.runThrough services invoke address arguments)
      (other.runThrough mirror mirrorInvoke address arguments) := by
  unfold runThrough
  unfold usesAt at uses
  rw [sameModule]
  cases found : machine.module? address.module with
  | none => exact Mirrors.stop _
  | some module =>
    simp only [found] at uses
    cases kind : address.kind with
    | function =>
      simp only [kind] at uses
      cases at? : module.unit.functions[address.index]? with
      | none =>
        simp only [at?]
        exact Mirrors.stop _
      | some function =>
        simp only [at?] at uses ⊢
        exact invoked function uses _
    | initializer =>
      simp only [kind] at uses
      cases at? : module.unit.initializers[address.index]? with
      | none =>
        simp only [at?]
        exact Mirrors.stop _
      | some initializer =>
        simp only [at?, List.forall_mem_cons] at uses ⊢
        have evaluated := evaluate_mirrors (mirrored.linkage invoked) initializer.value uses.2
        refine (evaluated.insideFrame _).bind fun value => ?_
        exact (writeGlobal_mirrors (mirrored.write _ uses.1) value).bind fun _ => Mirrors.pure _
    | global =>
      cases at? : module.unit.globals[address.index]? with
      | none =>
        simp only [at?]
        exact Mirrors.stop _
      | some entry =>
        simp only [at?]
        refine .of_eq fun state => ?_
        show EStateM.run (get >>= _) (view state) = seen _ (EStateM.run (get >>= _) state)
        simp only [EStateM.run_bind, EStateM.run_get, stored kind entry.name state]
        cases state.globals.get? entry.name <;> rfl

end

end Machine

/-! ## Services -/

/-- A view of the host that the services respect. -/
structure Services.Mirrored {σ τ : Type} (view : σ → τ) (services : Services σ)
    (mirror : Services τ) : Prop where
  callNative : ∀ name arguments host, mirror.callNative name arguments (view host) =
    ((services.callNative name arguments host).1, view (services.callNative name arguments host).2)
  registerAtExit : ∀ function address argument host,
    mirror.registerAtExit function address argument (view host) =
      view (services.registerAtExit function address argument host)

/-- Services mirror themselves. -/
theorem Services.mirrored_id {σ : Type} (services : Services σ) : services.Mirrored id services where
  callNative _ _ _ := rfl
  registerAtExit _ _ _ _ := rfl

namespace Machine

/-- The end of a run, with the variables in their place. -/
def conclude {σ : Type} (machine : Machine) :
    EStateM.Result Stop (State σ) Value → Except Stop Value × Machine × σ
  | .ok value state => (.ok value, { machine with globals := state.globals }, state.host)
  | .error stop state => (.error stop, { machine with globals := state.globals }, state.host)

section

variable {σ τ : Type} {cut : Stop → Prop} {view : σ → τ} {services : Services σ}
  {mirror : Services τ}

theorem run_eq_conclude (machine : Machine) (services : Services σ) (address : Address)
    (arguments : List Value) (host : σ) :
    machine.run services address arguments host =
      machine.conclude (machine.runAt services address arguments ⟨machine.globals, host⟩) := rfl

theorem conclude_seen (machine : Machine) (result : EStateM.Result Stop (State σ) Value) :
    machine.conclude (seen (State.view view) result) =
      ((machine.conclude result).1, (machine.conclude result).2.1,
        view (machine.conclude result).2.2) := by
  cases result <;> rfl

theorem callNative_mirrors (mirrored : services.Mirrored view mirror) (name : String)
    (arguments : List Int64) :
    Mirrors cut (State.view view) (callNative services name arguments)
      (callNative mirror name arguments) := by
  refine .of_eq fun state => ?_
  simp only [callNative, State.view, mirrored.callNative]
  rcases services.callNative name arguments state.host with ⟨_ | _, after⟩ <;> rfl

theorem registerAtExit_mirrors (mirrored : services.Mirrored view mirror) (machine : Machine)
    (name : String) (argument : Int64) :
    Mirrors cut (State.view view) (machine.registerAtExit services name argument)
      (machine.registerAtExit mirror name argument) := by
  refine .of_eq fun state => ?_
  simp only [registerAtExit]
  cases machine.functionAddress? name with
  | none => rfl
  | some address =>
    show EStateM.Result.ok () (State.mk state.globals _) = .ok () (State.mk state.globals _)
    rw [← mirrored.registerAtExit]
    rfl

/-- A view of the host alone is respected by all uses. -/
theorem mirrored_of_services (mirrored : services.Mirrored view mirror) (machine : Machine) :
    Mirrored cut (State.view view) (fun _ => True) machine services machine mirror where
  rounds := rfl
  read _ _ _ := rfl
  write _ _ _ := ⟨rfl, fun _ => rfl⟩
  called _ _ := rfl
  native name _ _ arguments := callNative_mirrors mirrored name arguments
  register name _ argument := registerAtExit_mirrors mirrored machine name argument
  closed _ _ _ _ _ _ := trivial

theorem run_mirrors (mirrored : services.Mirrored view mirror) (machine : Machine)
    (address : Address) (arguments : List Value) (host : σ) :
    machine.run mirror address arguments (view host) =
      ((machine.run services address arguments host).1,
        (machine.run services address arguments host).2.1,
        view (machine.run services address arguments host).2.2) := by
  have respected : Mirrored (fun _ => False) (State.view view) _ _ _ _ _ :=
    mirrored_of_services mirrored machine
  have mirrors :=
    runThrough_mirrors respected (invoke_mirrors respected rfl machine.limits.callDepth) address
      rfl (fun _ _ => trivial) (fun _ _ _ => rfl) arguments
  have same := mirrors.eq ⟨machine.globals, host⟩
  rw [run_eq_conclude, run_eq_conclude, ← conclude_seen, runAt_eq, runAt_eq]
  exact congrArg machine.conclude same

end

end Machine

/-! ## What services keep -/

section

variable {σ : Type} {services : Services σ} {kept : σ → Prop}

/-- A property of the host that every service keeps. -/
structure Services.Keeps (services : Services σ) (kept : σ → Prop) : Prop where
  callNative : ∀ name arguments host, kept host →
    kept (services.callNative name arguments host).2
  registerAtExit : ∀ function address argument host, kept host →
    kept (services.registerAtExit function address argument host)

/-- What every service keeps, a run keeps. -/
theorem Services.Keeps.run (keeps : services.Keeps kept) (machine : Machine) (address : Address)
    (arguments : List Value) (host : σ) (holds : kept host) :
    kept (machine.run services address arguments host).2.2 := by
  have uses : machine.KeptByUses services fun state => kept state.host :=
    { assigns := fun _ _ holds => holds
      calls := fun name arguments => keeps.callNative name arguments _
      registers := fun argument _ => keeps.registerAtExit _ _ argument _ }
  obtain ⟨state, keptThen, ended⟩ := uses.run address arguments holds
  rw [ended]
  exact keptThen

end

/-! ## Noting registrations -/

/-- What running code says when it registers a function. -/
structure Registration where
  function : String
  address : Address
  argument : Value

/-- The same services, with the registrations noted beside the host, newest first. -/
def Services.noting {σ : Type} (services : Services σ) : Services (σ × List Registration) where
  callNative name arguments hosted :=
    let (result, after) := services.callNative name arguments hosted.1
    (result, after, hosted.2)
  registerAtExit function address argument hosted :=
    (services.registerAtExit function address argument hosted.1,
      ⟨function, address, argument⟩ :: hosted.2)

/-- Without what is noted, they are the same services. -/
theorem Services.noting_mirrored {σ : Type} (services : Services σ) :
    services.noting.Mirrored Prod.fst services where
  callNative _ _ _ := rfl
  registerAtExit _ _ _ _ := rfl

/-- The registrations that running the code at an address makes, newest first. -/
def Machine.registrations {σ : Type} (machine : Machine) (services : Services σ)
    (address : Address) (arguments : List Value) (host : σ) : List Registration :=
  (machine.run services.noting address arguments (host, [])).2.2.2

/-- Noting changes nothing about a run. -/
theorem Machine.run_noting {σ : Type} (machine : Machine) (services : Services σ)
    (address : Address) (arguments : List Value) (host : σ) :
    machine.run services address arguments host =
      ((machine.run services.noting address arguments (host, [])).1,
        (machine.run services.noting address arguments (host, [])).2.1,
        (machine.run services.noting address arguments (host, [])).2.2.1) :=
  Machine.run_mirrors services.noting_mirrored machine address arguments (host, [])

end IncrementalC
