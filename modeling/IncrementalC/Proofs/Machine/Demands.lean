import IncrementalC.Proofs.Code.Occurrences
import IncrementalC.Proofs.Machine.Hosting

/-!
Contract: running code looks up no names but those it refers to.

Code demands what lies outside its frame by name, and in no other way. So its evaluation can
be written with whatever meets these demands as a parameter, and the demands can be noted
where they are met: the run stays what it was, and what was noted is what the code itself
looked up. The bodies of called functions are behind a demand and note nothing.

Owns: demands, evaluation that leaves it open how they are met, noting them, and that every
demand is for a name that is collected from the code.

Does not own: where names stand in code, or what a name is bound to.
-/

namespace IncrementalC.Machine

open Code (Expression Statement Use)

/-! ## Demands -/

/-- What code demands by name. -/
inductive Demand where
  | read (name : String)
  | write (name : String) (value : Int64)
  | call (name : String) (arguments : List Int64)
  | register (name : String) (argument : Int64)
deriving DecidableEq, Repr

/-- The use of the name that a demand makes. -/
def Demand.use : Demand → Use
  | .read name => .read name
  | .write name _ => .write name
  | .call name _ => .call name
  | .register name _ => .register name

/-- How demands are met. -/
abbrev Supply (σ : Type) : Type := Demand → Run (State σ) Int64

/-- Variables are read and written where they are stored, and a linkage does the rest. -/
def Linkage.supply {σ : Type} (linkage : Linkage σ) : Supply σ
  | .read name => readGlobal name
  | .write name value => do
    writeGlobal name value
    return value
  | .call name arguments => linkage.call name arguments
  | .register name argument => do
    linkage.registerAtExit name argument
    return 0

section

variable {σ : Type}

mutual

/-- The value of an expression, with its demands met by `supply`. -/
def evaluateThrough (supply : Supply σ) : Expression → Run (Activation σ) Int64
  | .integer value => pure value
  | .slot slot => readSlot slot
  | .global name => outsideFrame (supply (.read name))
  | .assignSlot slot value => do
    let result ← evaluateThrough supply value
    writeSlot slot result
    return result
  | .assignGlobal name value => do
    let result ← evaluateThrough supply value
    outsideFrame (supply (.write name result))
  | .call callee arguments => do
    let values ← evaluateAllThrough supply arguments
    outsideFrame (supply (.call callee values))
  | .atExit function argument => do
    let value ← evaluateThrough supply argument
    outsideFrame (supply (.register function value))
  | .unary operator operand => do
    let value ← evaluateThrough supply operand
    return applyUnary operator value
  | .binary operator left right => do
    let leftValue ← evaluateThrough supply left
    let rightValue ← evaluateThrough supply right
    match applyStrict operator leftValue rightValue with
    | .ok result => return result
    | .error fault => faultWith fault
  | .and left right => do
    let leftValue ← evaluateThrough supply left
    if leftValue = 0 then
      return 0
    else
      let rightValue ← evaluateThrough supply right
      return truth (rightValue ≠ 0)
  | .or left right => do
    let leftValue ← evaluateThrough supply left
    if leftValue = 0 then
      let rightValue ← evaluateThrough supply right
      return truth (rightValue ≠ 0)
    else
      return 1

/-- The values of several expressions, in order. -/
def evaluateAllThrough (supply : Supply σ) :
    List Expression → Run (Activation σ) (List Int64)
  | [] => pure []
  | head :: tail => do
    let value ← evaluateThrough supply head
    let values ← evaluateAllThrough supply tail
    return value :: values

end

mutual

/-- Runs a statement, with its demands met by `supply`. -/
def executeThrough (supply : Supply σ) (rounds : Nat) : Statement → Run (Activation σ) Flow
  | .evaluate value => do
    let _ ← evaluateThrough supply value
    return .normal
  | .store slot value => do
    let result ← evaluateThrough supply value
    writeSlot slot result
    return .normal
  | .choose condition whenTrue whenFalse => do
    let value ← evaluateThrough supply condition
    if value = 0 then executeAllThrough supply rounds whenFalse
    else executeAllThrough supply rounds whenTrue
  | .loop condition body =>
    repeatWhile (evaluateThrough supply condition) (executeAllThrough supply rounds body) rounds
  | .leave none => return .returned none
  | .leave (some value) => do
    let result ← evaluateThrough supply value
    return .returned (some result)

/-- Runs statements in order up to the first that returns. -/
def executeAllThrough (supply : Supply σ) (rounds : Nat) :
    List Statement → Run (Activation σ) Flow
  | [] => pure .normal
  | head :: tail => do
    match (← executeThrough supply rounds head) with
    | .returned value => return .returned value
    | .normal => executeAllThrough supply rounds tail

end

/-- Computes the first value of a variable and stores it, with demands met by `supply`. -/
def initializeThrough (supply : Supply σ) (initializer : Code.Initializer) :
    Run (State σ) Value := do
  let value ← insideFrame #[] (evaluateThrough supply initializer.value)
  let _ ← supply (.write initializer.global value)
  return .void

/-! ### Demands that the linkage meets -/

theorem outsideFrame_bind_pure {α β : Type} (computation : Run (State σ) α) (value : β) :
    outsideFrame (do let _ ← computation; return value) =
      (do let _ ← outsideFrame computation; return value) := by
  funext ⟨frame, state⟩
  have bound : ∀ {S : Type} (first : Run S α) (start : S),
      (do let _ ← first; return value : Run S β) start =
        match first start with
        | .ok _ after => .ok value after
        | .error stop after => .error stop after := by
    intro S first start
    show EStateM.bind first _ start = _
    unfold EStateM.bind
    cases first start <;> rfl
  rw [bound (outsideFrame computation), outsideFrame, bound computation, outsideFrame]
  cases computation state <;> rfl

variable (linkage : Linkage σ)

mutual

theorem evaluateThrough_supply :
    ∀ expression, evaluateThrough linkage.supply expression = evaluate linkage expression
  | .integer _ | .slot _ | .global _ => rfl
  | .assignSlot slot value => by
    simp only [evaluateThrough, evaluate, evaluateThrough_supply value]
  | .assignGlobal name value => by
    simp only [evaluateThrough, evaluate, evaluateThrough_supply value, Linkage.supply,
      outsideFrame_bind_pure]
  | .call callee arguments => by
    simp only [evaluateThrough, evaluate, evaluateAllThrough_supply arguments, Linkage.supply]
  | .atExit function argument => by
    simp only [evaluateThrough, evaluate, evaluateThrough_supply argument, Linkage.supply,
      outsideFrame_bind_pure]
  | .unary operator operand => by
    simp only [evaluateThrough, evaluate, evaluateThrough_supply operand]
  | .binary operator left right => by
    rw [evaluateThrough, evaluateThrough_supply left, evaluateThrough_supply right]
    rfl
  | .and left right | .or left right => by
    simp only [evaluateThrough, evaluate, evaluateThrough_supply left,
      evaluateThrough_supply right]

theorem evaluateAllThrough_supply :
    ∀ expressions, evaluateAllThrough linkage.supply expressions = evaluateAll linkage expressions
  | [] => rfl
  | head :: tail => by
    simp only [evaluateAllThrough, evaluateAll, evaluateThrough_supply head,
      evaluateAllThrough_supply tail]

end

mutual

theorem executeThrough_supply :
    ∀ statement, executeThrough linkage.supply linkage.rounds statement = execute linkage statement
  | .evaluate value | .store _ value | .leave (some value) => by
    simp only [executeThrough, execute, evaluateThrough_supply]
  | .choose condition whenTrue whenFalse => by
    simp only [executeThrough, execute, evaluateThrough_supply, executeAllThrough_supply whenTrue,
      executeAllThrough_supply whenFalse]
  | .loop condition body => by
    simp only [executeThrough, execute, evaluateThrough_supply, executeAllThrough_supply body]
  | .leave none => rfl

/-- Statements run as they do when the linkage meets their demands. -/
theorem executeAllThrough_supply :
    ∀ statements, executeAllThrough linkage.supply linkage.rounds statements =
      executeAll linkage statements
  | [] => rfl
  | head :: tail => by
    rw [executeAllThrough, executeThrough_supply head, executeAllThrough_supply tail]
    rfl

end

theorem initializeThrough_supply (machine : Machine) (services : Services σ)
    (initializer : Code.Initializer) :
    initializeThrough (machine.linkage services
        (machine.invoke services machine.limits.callDepth)).supply initializer =
      machine.runInitializer services initializer := by
  simp only [initializeThrough, runInitializer, evaluateThrough_supply, Linkage.supply, bind_assoc,
    pure_bind]

end

/-! ## Noting demands -/

section

variable {S T σ α β : Type} {attach : List Use → S → T} {permitted : Use → Prop}

/-- The state with the uses that were noted beside the host, oldest first. -/
def State.noting (uses : List Use) : State σ → State (σ × List Use) :=
  State.view fun host => (host, uses)

/-- The activation with the uses that were noted beside the host. -/
def Activation.noting (uses : List Use) : Activation σ → Activation (σ × List Use) :=
  Activation.view (State.noting uses)

/-- The same supply, which notes the use that each demand makes. -/
def Supply.noting (supply : Supply σ) : Supply (σ × List Use) := fun demand state =>
  seen (State.noting (state.host.2 ++ [demand.use])) (supply demand ⟨state.globals, state.host.1⟩)

/-- One computation does what the other does, and notes permitted uses. -/
def Notes (attach : List Use → S → T) (permitted : Use → Prop) (noting : Run T α)
    (plain : Run S α) : Prop :=
  ∀ noted state, ∃ uses, (∀ use ∈ uses, permitted use) ∧
    noting (attach noted state) = seen (attach (noted ++ uses)) (plain state)

theorem Notes.of_mirrors {noting : Run T α} {plain : Run S α}
    (mirrors : ∀ noted, Mirrors (fun _ => False) (attach noted) plain noting) :
    Notes attach permitted noting plain := by
  intro noted state
  refine ⟨[], List.forall_mem_nil _, ?_⟩
  rw [List.append_nil]
  exact (mirrors noted).eq state

theorem Notes.pure (value : α) :
    Notes attach permitted (Pure.pure value : Run T α) (Pure.pure value) :=
  .of_mirrors fun _ => Mirrors.pure value

theorem Notes.bind {noting : Run T α} {plain : Run S α} {notingNext : α → Run T β}
    {next : α → Run S β} (first : Notes attach permitted noting plain)
    (rest : ∀ value, Notes attach permitted (notingNext value) (next value)) :
    Notes attach permitted (noting >>= notingNext) (plain >>= next) := by
  intro noted state
  obtain ⟨uses, fine, same⟩ := first noted state
  show ∃ uses, _ ∧ EStateM.bind noting notingNext (attach noted state) =
    seen _ (EStateM.bind plain next state)
  unfold EStateM.bind
  rw [same]
  cases plain state with
  | error stop after => exact ⟨uses, fine, rfl⟩
  | ok value after =>
    obtain ⟨further, fineThen, sameThen⟩ := rest value (noted ++ uses) after
    refine ⟨uses ++ further, List.forall_mem_append.mpr ⟨fine, fineThen⟩, ?_⟩
    rw [← List.append_assoc]
    exact sameThen

theorem Notes.outsideFrame {noting : Run (State (σ × List Use)) α} {plain : Run (State σ) α}
    (notes : Notes State.noting permitted noting plain) :
    Notes Activation.noting permitted (Machine.outsideFrame noting)
      (Machine.outsideFrame plain) := by
  rintro noted ⟨frame, state⟩
  obtain ⟨uses, fine, same⟩ := notes noted state
  refine ⟨uses, fine, ?_⟩
  simp only [Machine.outsideFrame, Activation.noting, Activation.view]
  rw [same]
  cases plain state <;> rfl

theorem Notes.insideFrame {noting : Run (Activation (σ × List Use)) α}
    {plain : Run (Activation σ) α} (notes : Notes Activation.noting permitted noting plain)
    (frame : Array Int64) :
    Notes State.noting permitted (Machine.insideFrame frame noting)
      (Machine.insideFrame frame plain) := by
  intro noted state
  obtain ⟨uses, fine, same⟩ := notes noted ⟨frame, state⟩
  refine ⟨uses, fine, ?_⟩
  simp only [Machine.insideFrame]
  simp only [Activation.noting, Activation.view] at same
  rw [same]
  cases plain ⟨frame, state⟩ <;> rfl

theorem repeatWhile_notes {condition : Run (Activation σ) Int64}
    {notingCondition : Run (Activation (σ × List Use)) Int64} {body : Run (Activation σ) Flow}
    {notingBody : Run (Activation (σ × List Use)) Flow}
    (tested : Notes Activation.noting permitted notingCondition condition)
    (round : Notes Activation.noting permitted notingBody body) (rounds : Nat) :
    Notes Activation.noting permitted (repeatWhile notingCondition notingBody rounds)
      (repeatWhile condition body rounds) := by
  induction rounds with
  | zero => exact .of_mirrors fun _ => .of_eq fun _ => rfl
  | succ rounds inductionHypothesis =>
    intro noted activation
    obtain ⟨uses, fine, sameTest⟩ := tested noted activation
    simp only [repeatWhile]
    rw [sameTest]
    cases condition activation with
    | error stop after => exact ⟨uses, fine, rfl⟩
    | ok value after =>
      simp only [seen]
      by_cases zero : value = 0
      · simp only [if_pos zero]
        exact ⟨uses, fine, rfl⟩
      · simp only [if_neg zero]
        obtain ⟨further, fineThen, sameRound⟩ := round (noted ++ uses) after
        have fineBoth := List.forall_mem_append.mpr ⟨fine, fineThen⟩
        rw [sameRound]
        cases body after with
        | error stop final =>
          exact ⟨uses ++ further, fineBoth, by rw [← List.append_assoc]; rfl⟩
        | ok flow final =>
          cases flow with
          | returned result =>
            exact ⟨uses ++ further, fineBoth, by rw [← List.append_assoc]; rfl⟩
          | normal =>
            obtain ⟨later, fineLater, sameLater⟩ :=
              inductionHypothesis (noted ++ uses ++ further) final
            refine ⟨uses ++ further ++ later, List.forall_mem_append.mpr ⟨fineBoth, fineLater⟩, ?_⟩
            rw [← List.append_assoc, ← List.append_assoc]
            exact sameLater

/-- A demand is noted as the use it makes, and met as before. -/
theorem Supply.noting_notes (supply : Supply σ) {demand : Demand} (fine : permitted demand.use) :
    Notes State.noting permitted (supply.noting demand) (supply demand) :=
  fun _ _ => ⟨[demand.use], List.forall_mem_singleton.mpr fine, rfl⟩

end

section

variable {σ : Type} {permitted : Use → Prop} (supply : Supply σ)

mutual

theorem evaluateThrough_notes :
    ∀ expression : Expression, (∀ use ∈ expression.uses, permitted use) →
      Notes Activation.noting permitted (evaluateThrough supply.noting expression)
        (evaluateThrough supply expression)
  | .integer value => fun _ => .pure value
  | .slot slot => fun _ => .of_mirrors fun _ => readSlot_mirrors slot
  | .global name => fun uses =>
    (supply.noting_notes (uses _ (List.mem_singleton_self _))).outsideFrame
  | .assignSlot slot value => by
    intro uses
    simp only [evaluateThrough]
    refine (evaluateThrough_notes value uses).bind fun result => ?_
    exact (Notes.of_mirrors fun _ => writeSlot_mirrors slot result).bind fun _ => .pure result
  | .assignGlobal name value => by
    intro uses
    simp only [Expression.uses, List.forall_mem_cons] at uses
    simp only [evaluateThrough]
    refine (evaluateThrough_notes value uses.2).bind fun result => ?_
    exact (supply.noting_notes uses.1).outsideFrame
  | .call callee arguments => by
    intro uses
    simp only [Expression.uses, List.forall_mem_cons] at uses
    simp only [evaluateThrough]
    refine (evaluateAllThrough_notes arguments uses.2).bind fun values => ?_
    exact (supply.noting_notes uses.1).outsideFrame
  | .atExit function argument => by
    intro uses
    simp only [Expression.uses, List.forall_mem_cons] at uses
    simp only [evaluateThrough]
    refine (evaluateThrough_notes argument uses.2).bind fun value => ?_
    exact (supply.noting_notes uses.1).outsideFrame
  | .unary operator operand => by
    intro uses
    simp only [evaluateThrough]
    exact (evaluateThrough_notes operand uses).bind fun value => .pure _
  | .binary operator left right => by
    intro uses
    simp only [Expression.uses, List.forall_mem_append] at uses
    simp only [evaluateThrough]
    refine (evaluateThrough_notes left uses.1).bind fun leftValue => ?_
    refine (evaluateThrough_notes right uses.2).bind fun rightValue => ?_
    cases applyStrict operator leftValue rightValue with
    | ok result => exact .pure result
    | error fault => exact .of_mirrors fun _ => .stop _
  | .and left right => by
    intro uses
    simp only [Expression.uses, List.forall_mem_append] at uses
    simp only [evaluateThrough]
    refine (evaluateThrough_notes left uses.1).bind fun leftValue => ?_
    -- The right operand demands nothing unless it is evaluated.
    by_cases zero : leftValue = 0
    · simp only [if_pos zero]
      exact .pure 0
    · simp only [if_neg zero]
      exact (evaluateThrough_notes right uses.2).bind fun rightValue => .pure _
  | .or left right => by
    intro uses
    simp only [Expression.uses, List.forall_mem_append] at uses
    simp only [evaluateThrough]
    refine (evaluateThrough_notes left uses.1).bind fun leftValue => ?_
    by_cases zero : leftValue = 0
    · simp only [if_pos zero]
      exact (evaluateThrough_notes right uses.2).bind fun rightValue => .pure _
    · simp only [if_neg zero]
      exact .pure 1

theorem evaluateAllThrough_notes :
    ∀ expressions : List Expression, (∀ use ∈ Expression.listUses expressions, permitted use) →
      Notes Activation.noting permitted (evaluateAllThrough supply.noting expressions)
        (evaluateAllThrough supply expressions)
  | [] => fun _ => .pure []
  | head :: tail => by
    intro uses
    simp only [Expression.listUses, List.forall_mem_append] at uses
    simp only [evaluateAllThrough]
    refine (evaluateThrough_notes head uses.1).bind fun value => ?_
    exact (evaluateAllThrough_notes tail uses.2).bind fun values => .pure _

end

mutual

theorem executeThrough_notes (rounds : Nat) :
    ∀ statement : Statement, (∀ use ∈ statement.uses, permitted use) →
      Notes Activation.noting permitted (executeThrough supply.noting rounds statement)
        (executeThrough supply rounds statement)
  | .evaluate value => by
    intro uses
    simp only [executeThrough]
    exact (evaluateThrough_notes supply value uses).bind fun _ => .pure _
  | .store slot value => by
    intro uses
    simp only [executeThrough]
    refine (evaluateThrough_notes supply value uses).bind fun result => ?_
    exact (Notes.of_mirrors fun _ => writeSlot_mirrors slot result).bind fun _ => .pure _
  | .choose condition whenTrue whenFalse => by
    intro uses
    simp only [Statement.uses, List.forall_mem_append] at uses
    simp only [executeThrough]
    refine (evaluateThrough_notes supply condition uses.1.1).bind fun value => ?_
    by_cases zero : value = 0
    · simp only [if_pos zero]
      exact executeAllThrough_notes rounds whenFalse uses.2
    · simp only [if_neg zero]
      exact executeAllThrough_notes rounds whenTrue uses.1.2
  | .loop condition body => by
    intro uses
    simp only [Statement.uses, List.forall_mem_append] at uses
    simp only [executeThrough]
    exact repeatWhile_notes (evaluateThrough_notes supply condition uses.1)
      (executeAllThrough_notes rounds body uses.2) rounds
  | .leave none => fun _ => .pure _
  | .leave (some value) => by
    intro uses
    simp only [executeThrough]
    exact (evaluateThrough_notes supply value uses).bind fun _ => .pure _

theorem executeAllThrough_notes (rounds : Nat) :
    ∀ statements : List Statement, (∀ use ∈ Statement.listUses statements, permitted use) →
      Notes Activation.noting permitted (executeAllThrough supply.noting rounds statements)
        (executeAllThrough supply rounds statements)
  | [] => fun _ => .pure _
  | head :: tail => by
    intro uses
    simp only [Statement.listUses, List.forall_mem_append] at uses
    simp only [executeAllThrough]
    refine (executeThrough_notes rounds head uses.1).bind fun flow => ?_
    cases flow with
    | returned value => exact .pure _
    | normal => exact executeAllThrough_notes rounds tail uses.2

end

theorem initializeThrough_notes (initializer : Code.Initializer)
    (fine : permitted (.write initializer.global))
    (uses : ∀ use ∈ initializer.value.uses, permitted use) :
    Notes State.noting permitted (initializeThrough supply.noting initializer)
      (initializeThrough supply initializer) := by
  unfold initializeThrough
  refine ((evaluateThrough_notes supply initializer.value uses).insideFrame _).bind fun value => ?_
  exact (supply.noting_notes fine).bind fun _ => .pure _

end

/-! ## References -/

/-- The names are those of code: a run of the code demands what stands in it, under one of the
names, and each of the names stands in it. -/
structure Covers {S T α : Type} (attach : List Use → S → T) (names : NameSet) (stands : Use → Prop)
    (noting : Run T α) (plain : Run S α) : Prop where
  demanded : Notes attach (fun use => stands use ∧ use.name ∈ names) noting plain
  standing : ∀ name, name ∈ names ↔ ∃ use, stands use ∧ use.name = name

/-- The names that a module does not define itself are those of the code at its addresses. -/
theorem mem_referencesOf_iff (machine : Machine) (id : ModuleId) (name : String) :
    name ∈ machine.referencesOf id ↔ name ∉ machine.symbolsOf id ∧
      ∃ address : Address, address.module = id ∧ name ∈ machine.referencesAt address := by
  unfold referencesOf symbolsOf
  cases live : machine.module? id with
  | none =>
    simp only [List.not_mem_nil, not_false_eq_true, true_and, false_iff, not_exists, not_and]
    rintro address rfl
    simp only [referencesAt, live, List.not_mem_nil, not_false_eq_true]
  | some module =>
    simp only [CodeUnit.references, NameSet.mem_ofNames, List.mem_filter, List.mem_append,
      List.mem_flatMap, decide_eq_true_eq, and_comm (b := name ∉ _)]
    refine and_congr_right fun _ => ⟨?_, ?_⟩
    · rintro (⟨function, member, referred⟩ | ⟨initializer, member, referred⟩)
      · obtain ⟨index, at?⟩ := List.mem_iff_getElem?.mp member
        refine ⟨⟨id, .function, index⟩, rfl, ?_⟩
        simpa only [referencesAt, live, at?, Option.map_some, Option.getD_some] using referred
      · obtain ⟨index, at?⟩ := List.mem_iff_getElem?.mp member
        refine ⟨⟨id, .initializer, index⟩, rfl, ?_⟩
        simpa only [referencesAt, live, at?, Option.map_some, Option.getD_some] using referred
    · rintro ⟨⟨_, kind, index⟩, rfl, referred⟩
      simp only [referencesAt, live] at referred
      cases kind with
      | global => exact absurd referred List.not_mem_nil
      | function =>
        cases at? : module.unit.functions[index]? with
        | none =>
          simp only [at?] at referred
          exact absurd referred List.not_mem_nil
        | some function =>
          simp only [at?, Option.map_some, Option.getD_some] at referred
          exact .inl ⟨function, List.mem_of_getElem? at?, referred⟩
      | initializer =>
        cases at? : module.unit.initializers[index]? with
        | none =>
          simp only [at?] at referred
          exact absurd referred List.not_mem_nil
        | some initializer =>
          simp only [at?, Option.map_some, Option.getD_some] at referred
          exact .inr ⟨initializer, List.mem_of_getElem? at?, referred⟩

/-- Whatever the frame, the variables and the host are, and however calls are answered, code
looks up none but the names that are collected from it, each in the way in which it stands in
the code; and no other names are collected. An initializer writes its variable besides. So the
names that a module needs from elsewhere are those of its code that it does not define. -/
theorem code_demands_its_references {σ : Type} :
    (∀ (linkage : Linkage σ) (expression : Expression),
      Covers Activation.noting (.ofNames expression.names) (fun use => expression.Contains use)
        (evaluateThrough linkage.supply.noting expression) (evaluate linkage expression)) ∧
      (∀ (linkage : Linkage σ) (function : Code.Function),
        Covers Activation.noting function.references
          (fun use => Statement.ListContains use function.body)
          (executeAllThrough linkage.supply.noting linkage.rounds function.body)
          (executeAll linkage function.body)) ∧
      ∀ (machine : Machine) (services : Services σ),
        (∀ initializer : Code.Initializer,
          Covers State.noting initializer.references
            (fun use => use = .write initializer.global ∨ initializer.value.Contains use)
            (initializeThrough (machine.linkage services
              (machine.invoke services machine.limits.callDepth)).supply.noting initializer)
            (machine.runInitializer services initializer)) ∧
        ∀ id name, name ∈ machine.referencesOf id ↔ name ∉ machine.symbolsOf id ∧
          ∃ address : Address, address.module = id ∧ name ∈ machine.referencesAt address := by
  refine ⟨fun linkage expression => ⟨?_, fun _ => Expression.mem_references_iff⟩,
    fun linkage function => ⟨?_, fun _ => Code.Function.mem_references_iff⟩,
    fun machine services => ⟨fun initializer => ⟨?_, fun _ => Code.Initializer.mem_references_iff⟩,
      mem_referencesOf_iff machine⟩⟩
  · rw [← evaluateThrough_supply]
    refine evaluateThrough_notes _ expression fun use made => ?_
    have contained := Expression.contains_iff.mpr made
    exact ⟨contained, Expression.mem_references_iff.mpr ⟨use, contained, rfl⟩⟩
  · rw [← executeAllThrough_supply]
    refine executeAllThrough_notes _ _ function.body fun use made => ?_
    have contained := Statement.listContains_iff.mpr made
    exact ⟨contained, Code.Function.mem_references_iff.mpr ⟨use, contained, rfl⟩⟩
  · rw [← initializeThrough_supply]
    have stands : ∀ use, (use = .write initializer.global ∨ initializer.value.Contains use) →
        (use = .write initializer.global ∨ initializer.value.Contains use) ∧
          use.name ∈ initializer.references := fun use standing =>
      ⟨standing, Code.Initializer.mem_references_iff.mpr ⟨use, standing, rfl⟩⟩
    exact initializeThrough_notes _ initializer (stands _ (.inl rfl)) fun use made =>
      stands use (.inr (Expression.contains_iff.mpr made))

/-- Names are collected from the parts of statements too, and listed in ascending order. -/
example :
    Code.Function.references ⟨"main", ⟨0⟩, 0, 1, true,
      [.store 0 (.global "base"),
        .loop (.slot 0) [.evaluate (.call "step" [.global "limit"])],
        .leave (some (.atExit "cleanup" (.integer 1)))]⟩ =
      ["base", "cleanup", "limit", "step"] := by
  decide

end IncrementalC.Machine
