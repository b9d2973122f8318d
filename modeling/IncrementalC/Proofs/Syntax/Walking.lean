import IncrementalC.Proofs.Syntax.Grammar
import IncrementalC.Proofs.Syntax.Readers

/-!
Contract: reading programs with a position and a depth instead of bounds.

A walk keeps its place in the tokens of a text and counts how deep it is nested. Nothing in a walk
limits how often a loop runs or how long a walk goes on: one that never ends has no outcome.

A walk is compared with a reader at one station: the reader gets the tokens from there on. That the
walk ends is part of the comparison, as are the depth at which it ends and how many tokens it has
taken at least.

Owns:
- stations, walks, and the walk for each part of a program;
- the comparison, its rules, and what follows for single tokens and for nesting.

Does not own: that the walks for the parts of a program end, or that they read what the readers
read.
-/

namespace IncrementalC.Syntax

/-- Where a walk stands. -/
structure Station where
  position : Nat
  depth : Nat
  /-- The greatest depth that the walk has reached. -/
  deepest : Nat
deriving DecidableEq, Repr

namespace Station

/-- Where a walk over a text begins. -/
def start : Station := ⟨0, 0, 0⟩

def onward (station : Station) : Station := { station with position := station.position + 1 }

def inward (station : Station) : Station :=
  { station with depth := station.depth + 1, deepest := max station.deepest (station.depth + 1) }

def outward (station : Station) : Station := { station with depth := station.depth - 1 }

end Station

/-- What goes from station to station; it has no outcome if it never ends. -/
abbrev Moving : Type → Type := StateT Station Option

/-- A walk ends at a station with a result or with a problem, if it ends. -/
abbrev Walk : Type → Type := ExceptT SourceError Moving

/-- The tokens of a text. The last one is the end of input, and no other one is. -/
structure TokenText where
  tokens : List Token
  ends : ∃ before stop, tokens = before ++ [stop] ∧ Unended before ∧ stop.lexeme = .endOfInput

namespace TokenText

open Syntax.Parser (OperatorLevel operatorLevels operatorOf? unaryOperatorOf? branchBody)

variable (text : TokenText)

/-! ## Single tokens -/

/-- The token at hand; from the end of input on it is the end of input. -/
def current : Walk Token := do
  let station ← get
  return text.tokens.getD (min station.position (text.tokens.length - 1)) ⟨.endOfInput, .nowhere⟩

/-- Takes the token at hand; the end of input is never taken. -/
def take : Walk Token := do
  let token ← text.current
  if token.lexeme ≠ .endOfInput then
    modify Station.onward
  return token

def reject {α : Type} (problem : SyntaxProblem) (span : Span) : Walk α :=
  throw (.invalid (problem.reportAt span))

/-- Stops because of the token at hand. At the end of input something is only missing. -/
def fail {α : Type} (problem : SyntaxProblem) : Walk α := do
  let token ← text.current
  if token.lexeme = .endOfInput then
    throw .incomplete
  else
    reject problem token.span

def accept (lexeme : Lexeme) : Walk Bool := do
  if (← text.current).lexeme = lexeme then
    let _ ← text.take
    return true
  else
    return false

def expect (symbol : Mark) (expectation : Expectation) : Walk Span := do
  let token ← text.current
  if token.lexeme = .mark symbol then
    let _ ← text.take
    return token.span
  else
    text.fail (.expected expectation token.lexeme)

def expectMark (symbol : Mark) : Walk Span := text.expect symbol (.mark symbol)

def identifier : Walk (String × Span) := do
  let token ← text.current
  match token.lexeme with
  | .identifier name =>
    let _ ← text.take
    return (name, token.span)
  | other => text.fail (.expected .identifier other)

def typeName? : Walk (Option TypeName) := do
  match (← text.current).lexeme with
  | .keyword .intType => let _ ← text.take; return some .int
  | .keyword .voidType => let _ ← text.take; return some .void
  | .keyword .autoType => let _ ← text.take; return some .auto
  | _ => return none

/-! ## Nesting -/

/-- Goes one level deeper, or stops where the limit is reached. -/
def enter : Walk Unit := do
  if nestingLimit ≤ (← get).depth then
    reject .nestingTooDeep (← text.current).span
  else
    modify Station.inward

/-- Goes back up one level, also with a problem. -/
def leave {α : Type} (outcome : Except SourceError α) : Moving (Except SourceError α) := do
  modify Station.outward
  return outcome

/-- The walk `inner`, one level deeper. The walks below that contain themselves spell this out, as
a recursive call has to stand in them and not in an argument. -/
def nested {α : Type} (inner : Walk α) : Walk α := do
  text.enter
  (ExceptT.run inner >>= leave : Moving (Except SourceError α))

/-! ## Expressions -/

mutual

def expression (text : TokenText) : Walk Expression := do
  text.enter
  (ExceptT.run (text |>.expressionAtDepth) >>= leave : Moving (Except SourceError Expression))
partial_fixpoint

def expressionAtDepth (text : TokenText) : Walk Expression := do
  let target ← text |>.binaryLevels operatorLevels
  if ← text.accept (.mark .assign) then
    let value ← text |>.expression
    return .assign target value (target.span.through value.span)
  else
    return target
partial_fixpoint

/-- Operators of the given precedences, loosest first. -/
def binaryLevels (text : TokenText) : List OperatorLevel → Walk Expression
  | [] => text |>.unary
  | level :: tighter => do
    let left ← text |>.binaryLevels tighter
    text |>.operatorsBehind level tighter left
partial_fixpoint

/-- Goes on from `left` for as long as an operator of the level is at hand. -/
def operatorsBehind (text : TokenText) (level : OperatorLevel) (tighter : List OperatorLevel)
    (left : Expression) : Walk Expression := do
  let token ← text.current
  match operatorOf? level token.lexeme with
  | none => return left
  | some operator =>
    let _ ← text.take
    let right ← text |>.binaryLevels tighter
    text |>.operatorsBehind level tighter
      (.binary operator left right (left.span.through right.span))
partial_fixpoint

def unary (text : TokenText) : Walk Expression := do
  let token ← text.current
  match unaryOperatorOf? token.lexeme with
  | none => text |>.primary
  | some operator =>
    let _ ← text.take
    let inner ← (show Walk Expression from do
      text.enter
      (ExceptT.run (text |>.unary) >>= leave : Moving (Except SourceError Expression)))
    return .unary operator inner (token.span.through inner.span)
partial_fixpoint

def primary (text : TokenText) : Walk Expression := do
  let token ← text.current
  match token.lexeme with
  | .integer value =>
    let _ ← text.take
    return .integer value token.span
  | .identifier name =>
    let _ ← text.take
    if ← text.accept (.mark .openParen) then
      if (← text.current).lexeme = .mark .closeParen then
        let close ← text.expectMark .closeParen
        return .call name [] (token.span.through close)
      else
        let arguments ← text |>.argumentList
        let close ← text.expectMark .closeParen
        return .call name arguments (token.span.through close)
    else
      return .name name token.span
  | other =>
    if other = .mark .openParen then
      let _ ← text.take
      let inner ← text |>.expression
      let _ ← text.expectMark .closeParen
      return inner
    else
      text.fail (.expected .expression other)
partial_fixpoint

/-- One argument, and more for as long as a comma is at hand. -/
def argumentList (text : TokenText) : Walk (List Expression) := do
  let first ← text |>.expression
  if ← text.accept (.mark .comma) then
    return first :: (← text |>.argumentList)
  else
    return [first]
partial_fixpoint

end

/-! ## Statements -/

def initialValue? : Walk (Option Expression) := do
  if ← text.accept (.mark .assign) then
    return some (← text.expression)
  else
    return none

def condition : Walk Expression := do
  let _ ← text.expectMark .openParen
  let value ← text.expression
  let _ ← text.expectMark .closeParen
  return value

def declaration (type : TypeName) (start : Span) : Walk Statement := do
  let _ ← text.take
  let (name, _) ← text.identifier
  let initial ← text.initialValue?
  let close ← text.expectMark .semicolon
  return .declare type name initial (start.through close)

mutual

def statement (text : TokenText) : Walk Statement := do
  text.enter
  (ExceptT.run (text |>.statementAtDepth) >>= leave : Moving (Except SourceError Statement))
partial_fixpoint

def statementAtDepth (text : TokenText) : Walk Statement := do
  let token ← text.current
  match token.lexeme with
  | .keyword .intType => text.declaration .int token.span
  | .keyword .voidType => text.declaration .void token.span
  | .keyword .autoType | .keyword .externWord => text.fail .unsupportedLocal
  | .keyword .ifWord =>
    let _ ← text.take
    let test ← text.condition
    let whenTrue ← text |>.statement
    if ← text.accept (.keyword .elseWord) then
      let whenFalse ← text |>.statement
      return .choose test (branchBody whenTrue) (branchBody whenFalse)
    else
      return .choose test (branchBody whenTrue) []
  | .keyword .whileWord =>
    let _ ← text.take
    let test ← text.condition
    let body ← text |>.statement
    return .loop test (branchBody body)
  | .keyword .returnWord =>
    let _ ← text.take
    if (← text.current).lexeme = .mark .semicolon then
      let close ← text.expectMark .semicolon
      return .leave none (token.span.through close)
    else
      let value ← text.expression
      let close ← text.expectMark .semicolon
      return .leave (some value) (token.span.through close)
  | .mark .openBrace => return .block (← text |>.block)
  | .mark .semicolon =>
    let _ ← text.take
    return .empty
  | _ =>
    let value ← text.expression
    let _ ← text.expectMark .semicolon
    return .evaluate value
partial_fixpoint

def block (text : TokenText) : Walk (List Statement) := do
  let _ ← text.expectMark .openBrace
  text |>.statementsToClose
partial_fixpoint

/-- Statements for as long as no closing brace is at hand. -/
def statementsToClose (text : TokenText) : Walk (List Statement) := do
  if ← text.accept (.mark .closeBrace) then
    return []
  else
    let head ← text |>.statement
    return head :: (← text |>.statementsToClose)
partial_fixpoint

end

/-! ## Items -/

/-- Whether an empty parameter list written `void)` stands here. -/
def atVoidParameters : Walk Bool := do
  let token ← text.current
  let station ← get
  let following := text.tokens[station.position + 1]?.map Token.lexeme
  return decide (token.lexeme = .keyword .voidType ∧ following = some (.mark .closeParen))

/-- One parameter, and more for as long as a comma is at hand. -/
def parameterList (text : TokenText) : Walk (List Parameter) := do
  let start ← text.current
  match (← text.typeName?) with
  | none => text.fail .expectedParameterType
  | some type =>
    let (name, stop) ← text.identifier
    let parameter : Parameter := ⟨type, name, start.span.through stop⟩
    if ← text.accept (.mark .comma) then
      return parameter :: (← text |>.parameterList)
    else
      return [parameter]
partial_fixpoint

def parameters : Walk (List Parameter) := do
  if ← text.accept (.mark .closeParen) then
    return []
  else if ← text.atVoidParameters then
    let _ ← text.take
    let _ ← text.take
    return []
  else
    let list ← text.parameterList
    let _ ← text.expectMark .closeParen
    return list

def functionRest (returns : TypeName) (name : String) (isExternal : Bool) (start : Span) :
    Walk Item := do
  let list ← text.parameters
  let token ← text.current
  if token.lexeme = .mark .openBrace then
    if isExternal then
      text.fail .externalBody
    else
      let body ← text.block
      return .function returns name list (some body) isExternal (start.through token.span)
  else
    let close ← text.expect .semicolon .semicolonOrBody
    return .function returns name list none isExternal (start.through close)

def item : Walk Item := do
  let start ← text.current
  let isExternal ← text.accept (.keyword .externWord)
  match (← text.typeName?) with
  | none => text.fail .expectedDeclaration
  | some type =>
    let (name, _) ← text.identifier
    if ← text.accept (.mark .openParen) then
      text.functionRest type name isExternal start.span
    else if isExternal then
      reject (.externalVariable name) start.span
    else
      let initial ← text.initialValue?
      let close ← text.expectMark .semicolon
      return .variable type name initial (start.span.through close)

/-- Items for as long as the end of input is not at hand. -/
def program (text : TokenText) : Walk (List Item) := do
  if (← text.current).lexeme = .endOfInput then
    return []
  else
    let head ← text.item
    return head :: (← text |>.program)
partial_fixpoint

end TokenText

/-! ## Stations inside a text -/

namespace Station

/-- The tokens from a station on. -/
def rest (text : TokenText) (station : Station) : List Token := text.tokens.drop station.position

/-- The token at a station. -/
def token (text : TokenText) (station : Station) : Token :=
  (station.rest text).headD ⟨.endOfInput, .nowhere⟩

/-- A station inside a text: not behind its end, and never deeper than allowed. -/
structure Inside (text : TokenText) (station : Station) : Prop where
  position : station.position < text.tokens.length
  depth : station.depth ≤ nestingLimit
  deepest : station.deepest ≤ nestingLimit

/-- A station inside a text below which `allowance` more levels may nest. -/
structure At (text : TokenText) (allowance : Nat) (station : Station) : Prop extends
    Inside text station where
  below : station.depth + allowance = nestingLimit

/-- What a walk from `before` to `after` keeps: it goes nowhere back, ends as deep as it began and
stays inside the text. -/
structure Leads (text : TokenText) (before after : Station) : Prop where
  position : before.position ≤ after.position
  depth : after.depth = before.depth
  inside : after.Inside text

/-- How many more levels may nest below a station. -/
def allowance (station : Station) : Nat := nestingLimit - station.depth

theorem Inside.at {text : TokenText} {station : Station} (inside : station.Inside text) :
    station.At text station.allowance :=
  ⟨inside, Nat.add_sub_of_le inside.depth⟩

theorem start_inside (text : TokenText) : start.Inside text := by
  obtain ⟨before, stop, split, -⟩ := text.ends
  exact ⟨by simp [start, split], Nat.zero_le _, Nat.zero_le _⟩

theorem Inside.leads {text : TokenText} {station : Station} (inside : station.Inside text) :
    Leads text station station := ⟨Nat.le_refl _, rfl, inside⟩

theorem Leads.at {text : TokenText} {allowance : Nat} {before after : Station}
    (leads : Leads text before after) (placed : before.At text allowance) :
    after.At text allowance :=
  ⟨leads.inside, leads.depth ▸ placed.below⟩

theorem Leads.trans {text : TokenText} {before between after : Station}
    (first : Leads text before between) (second : Leads text between after) :
    Leads text before after :=
  ⟨Nat.le_trans first.position second.position, second.depth.trans first.depth, second.inside⟩

theorem token_onward (text : TokenText) (station : Station) :
    station.onward.token text = ((station.rest text)[1]?).getD ⟨.endOfInput, .nowhere⟩ := by
  rw [token, rest, rest, List.headD_eq_head?_getD, List.head?_drop, List.getElem?_drop]
  rfl

/-- Before the end of input there is one more token. -/
theorem Inside.onward {text : TokenText} {station : Station} (inside : station.Inside text)
    (more : (station.token text).lexeme ≠ .endOfInput) :
    station.rest text = station.token text :: station.onward.rest text ∧
      station.onward.Inside text := by
  obtain ⟨before, stop, split, -, stopped⟩ := text.ends
  obtain ⟨position, depth, deepest⟩ := inside
  have taken := List.drop_eq_getElem_cons position
  have head : station.token text = text.tokens[station.position] := by
    rw [token, rest, taken, List.headD_cons]
  refine ⟨by rw [head]; exact taken, ?_, depth, deepest⟩
  have early : station.position ≠ before.length := by
    intro last
    apply more
    simp [head, last, split, stopped]
  rw [split, List.length_append, List.length_singleton] at position ⊢
  change station.position + 1 < _
  omega

end Station

/-! ## Comparing a walk with a reader -/

/-- With what and where a walk from a station ends; nothing if it never ends. -/
def Walk.outcome {α : Type} (walk : Walk α) (before : Station) :
    Option (Except SourceError α × Station) :=
  StateT.run (ExceptT.run walk) before

namespace TokenText

/-- From the station `before` the walk ends, at a station inside the text and as deep as before. It
finds what the reader finds and leaves the tokens that the reader leaves, and if it succeeds it has
taken at least `gain` tokens. -/
def Follows {α : Type} (text : TokenText) (gain : Nat) (walk : Walk α) (reader : Parser α)
    (before : Station) : Prop :=
  ∃ found after, walk.outcome before = some (found, after) ∧
    reader (before.rest text) = found.map (fun value => (value, after.rest text)) ∧
    before.Leads text after ∧
    ∀ value, found = .ok value → before.position + gain ≤ after.position

/-- What of `Follows` remains where no reader is compared. -/
def Advances {α : Type} (text : TokenText) (gain : Nat) (walk : Walk α) (before : Station) : Prop :=
  ∃ found after, walk.outcome before = some (found, after) ∧ before.Leads text after ∧
    ∀ value, found = .ok value → before.position + gain ≤ after.position

/-- A walk follows a reader from all stations of a depth. -/
def FollowsAt {α : Type} (text : TokenText) (allowance gain : Nat) (walk : Walk α)
    (reader : Parser α) : Prop :=
  ∀ ⦃before : Station⦄, before.At text allowance → Follows text gain walk reader before

/-- The walk and the reader succeed with the same value, and the walk ends at `after`. -/
structure Gives {α : Type} (text : TokenText) (walk : Walk α) (reader : Parser α) (value : α)
    (before after : Station) : Prop where
  walked : walk.outcome before = some (.ok value, after)
  read : reader (before.rest text) = .ok (value, after.rest text)
  leads : before.Leads text after

section

variable {α β : Type} {text : TokenText} {gain : Nat} {before between after : Station}
variable {walk : Walk α} {reader : Parser α} {next : α → Walk β} {readNext : α → Parser β}
variable {value : α}

theorem outcome_bind_of_ok (ended : walk.outcome before = some (.ok value, between)) :
    (walk >>= next).outcome before = (next value).outcome between := by
  rw [Walk.outcome] at ended
  simp only [Walk.outcome, ExceptT.run_bind, StateT.run_bind, ended]
  rfl

theorem outcome_bind_of_error {problem : SourceError}
    (ended : walk.outcome before = some (.error problem, after)) :
    (walk >>= next).outcome before = some (.error problem, after) := by
  rw [Walk.outcome] at ended
  simp only [Walk.outcome, ExceptT.run_bind, StateT.run_bind, ended]
  rfl

theorem gives_pure (inside : before.Inside text) (value : α) :
    Gives text (pure value) (pure value) value before before :=
  ⟨rfl, rfl, inside.leads⟩

theorem Gives.bind {result : β} (begins : Gives text walk reader value before between)
    (goesOn : Gives text (next value) (readNext value) result between after) :
    Gives text (walk >>= next) (reader >>= readNext) result before after where
  walked := (outcome_bind_of_ok begins.walked).trans goesOn.walked
  read := (Parser.bind_of_ok begins.read readNext).trans goesOn.read
  leads := begins.leads.trans goesOn.leads

/-- Behind a walk whose value is known. -/
theorem Gives.follows_bind (begins : Gives text walk reader value before between)
    (goesOn : Follows text (gain - (between.position - before.position)) (next value)
      (readNext value) between) :
    Follows text gain (walk >>= next) (reader >>= readNext) before := by
  obtain ⟨found, after, walked, read, leads, gained⟩ := goesOn
  refine ⟨found, after, (outcome_bind_of_ok begins.walked).trans walked,
    (Parser.bind_of_ok begins.read readNext).trans read, begins.leads.trans leads,
    fun value success => ?_⟩
  have taken := gained value success
  have forward := begins.leads.position
  omega

/-- Behind a walk that takes one token. -/
theorem Gives.follows_bind_onward (begins : Gives text walk reader value before before.onward)
    (goesOn : ∀ {after : Station}, before.Leads text after →
      before.position + 1 ≤ after.position →
      Follows text (gain - 1) (next value) (readNext value) after) :
    Follows text gain (walk >>= next) (reader >>= readNext) before := by
  refine begins.follows_bind ?_
  have one : before.onward.position - before.position = 1 := Nat.add_sub_cancel_left _ 1
  rw [one]
  exact goesOn begins.leads (Nat.le_refl _)

/-- Behind a walk that stays where it is. -/
theorem Gives.follows_bind_stay (begins : Gives text walk reader value before before)
    (goesOn : Follows text gain (next value) (readNext value) before) :
    Follows text gain (walk >>= next) (reader >>= readNext) before := by
  refine begins.follows_bind ?_
  rw [Nat.sub_self]
  exact goesOn

theorem Follows.weaken {less : Nat} (follows : Follows text gain walk reader before)
    (fewer : less ≤ gain) : Follows text less walk reader before := by
  obtain ⟨found, after, walked, read, leads, gained⟩ := follows
  exact ⟨found, after, walked, read, leads, fun value success =>
    Nat.le_trans (Nat.add_le_add_left fewer _) (gained value success)⟩

theorem Follows.toZero (follows : Follows text gain walk reader before) :
    Follows text 0 walk reader before :=
  follows.weaken (Nat.zero_le gain)

/-- What one walk has not taken, the one behind it has to take. -/
theorem Follows.bind {first : Nat} (begins : Follows text first walk reader before)
    (goesOn : ∀ value {after : Station}, before.Leads text after →
      before.position + first ≤ after.position →
      Follows text (gain - first) (next value) (readNext value) after) :
    Follows text gain (walk >>= next) (reader >>= readNext) before := by
  obtain ⟨found, between, walked, read, leads, gained⟩ := begins
  cases found with
  | error problem =>
    refine ⟨.error problem, between, outcome_bind_of_error walked, ?_, leads, nofun⟩
    simp only [Bind.bind, read, Except.map]
  | ok value =>
    have taken := gained value rfl
    have given : Gives text walk reader value before between := ⟨walked, read, leads⟩
    exact given.follows_bind ((goesOn value leads taken).weaken (by omega))

theorem Follows.advances (follows : Follows text gain walk reader before) :
    Advances text gain walk before := by
  obtain ⟨found, after, walked, -, leads, gained⟩ := follows
  exact ⟨found, after, walked, leads, gained⟩

theorem Advances.bind {first : Nat} (begins : Advances text first walk before)
    (goesOn : ∀ value {after : Station}, before.Leads text after →
      Advances text (gain - first) (next value) after) :
    Advances text gain (walk >>= next) before := by
  obtain ⟨found, between, walked, leads, gained⟩ := begins
  cases found with
  | error problem => exact ⟨_, between, outcome_bind_of_error walked, leads, nofun⟩
  | ok value =>
    obtain ⟨found, after, walkedOn, leadsOn, gainedOn⟩ := goesOn value leads
    refine ⟨found, after, (outcome_bind_of_ok walked).trans walkedOn, leads.trans leadsOn,
      fun result success => ?_⟩
    have taken := gained value rfl
    have takenOn := gainedOn result success
    omega

theorem Gives.follows_onward (given : Gives text walk reader value before before.onward) :
    Follows text 1 walk reader before :=
  ⟨.ok value, before.onward, given.walked, given.read, given.leads, fun _ _ => Nat.le_refl _⟩

theorem Gives.follows (given : Gives text walk reader value before after) :
    Follows text 0 walk reader before :=
  ⟨.ok value, after, given.walked, given.read, given.leads, fun _ _ => given.leads.position⟩

theorem follows_pure (inside : before.Inside text) (value : α) :
    Follows text 0 (pure value) (pure value) before :=
  (gives_pure inside value).follows

/-- Last comes what is made of the value. -/
theorem Follows.pure {result : α → β} (begins : Follows text gain walk reader before) :
    Follows text gain (walk >>= fun value => Pure.pure (result value))
      (reader >>= fun value => Pure.pure (result value)) before := by
  refine begins.bind fun value _ leads _ => ?_
  rw [Nat.sub_self]
  exact follows_pure leads.inside (result value)

theorem follows_ite {condition : Prop} [Decidable condition] {other : Walk α}
    {otherReader : Parser α} (first : condition → Follows text gain walk reader before)
    (second : ¬condition → Follows text gain other otherReader before) :
    Follows text gain (if condition then walk else other)
      (if condition then reader else otherReader) before := by
  split
  · exact first ‹_›
  · exact second ‹_›

theorem follows_reject (inside : before.Inside text) (problem : SyntaxProblem) (span : Span) :
    Follows text gain (reject problem span : Walk α) (Parser.reject problem span) before :=
  ⟨_, before, rfl, rfl, inside.leads, nofun⟩

end

/-! ## Single tokens -/

section

variable {α : Type} {text : TokenText} {gain : Nat} {before : Station}

theorem gives_current (inside : before.Inside text) :
    Gives text text.current Parser.current (before.token text) before before where
  walked := by
    have here := inside.position
    have clamped : min before.position (text.tokens.length - 1) = before.position := by omega
    have found : text.tokens.getD before.position ⟨.endOfInput, .nowhere⟩ = before.token text := by
      simp [Station.token, Station.rest, List.headD_eq_head?_getD, List.getD_eq_getElem?_getD]
    change some (Except.ok (text.tokens.getD (min _ (text.tokens.length - 1)) _), before) = _
    rw [clamped, found]
  read := rfl
  leads := inside.leads

theorem gives_bind_lexeme {next : Token → Walk α} {readNext : Lexeme → Parser α} {value : α}
    {after : Station} (inside : before.Inside text)
    (goesOn : Gives text (next (before.token text)) (readNext (before.token text).lexeme) value
      before after) :
    Gives text (text.current >>= next) (Parser.currentLexeme >>= readNext) value before after :=
  show Gives text _ (Parser.current >>= fun token => readNext token.lexeme) value before after from
    (gives_current inside).bind goesOn

theorem follows_bind_current {next : Token → Walk α} {readNext : Token → Parser α}
    (inside : before.Inside text)
    (goesOn : Follows text gain (next (before.token text)) (readNext (before.token text)) before) :
    Follows text gain (text.current >>= next) (Parser.current >>= readNext) before :=
  (gives_current inside).follows_bind_stay goesOn

theorem follows_bind_lexeme {next : Token → Walk α} {readNext : Lexeme → Parser α}
    (inside : before.Inside text)
    (goesOn : Follows text gain (next (before.token text)) (readNext (before.token text).lexeme)
      before) :
    Follows text gain (text.current >>= next) (Parser.currentLexeme >>= readNext) before :=
  show Follows text gain _ (Parser.current >>= fun token => readNext token.lexeme) before from
    follows_bind_current inside goesOn

theorem follows_bind_span {next : Token → Walk α} {readNext : Span → Parser α}
    (inside : before.Inside text)
    (goesOn : Follows text gain (next (before.token text)) (readNext (before.token text).span)
      before) :
    Follows text gain (text.current >>= next) (Parser.currentSpan >>= readNext) before :=
  show Follows text gain _ (Parser.current >>= fun token => readNext token.span) before from
    follows_bind_current inside goesOn

variable (inside : before.Inside text)

include inside

/-- Whatever is no end of input is taken. -/
theorem gives_take (more : (before.token text).lexeme ≠ .endOfInput) :
    Gives text text.take Parser.take (before.token text) before before.onward := by
  obtain ⟨taken, inside'⟩ := inside.onward more
  refine ⟨?_, ?_, Nat.le_succ _, rfl, inside'⟩
  · refine (outcome_bind_of_ok (gives_current inside).walked).trans ?_
    rw [if_pos more]
    rfl
  · rw [taken]
    exact Parser.take_cons more _

/-- Behind a token that is no end of input. -/
theorem follows_bind_take {next : Token → Walk α} {readNext : Token → Parser α}
    (more : (before.token text).lexeme ≠ .endOfInput)
    (goesOn : ∀ {after : Station}, before.Leads text after →
      before.position + 1 ≤ after.position →
      Follows text (gain - 1) (next (before.token text)) (readNext (before.token text)) after) :
    Follows text gain (text.take >>= next) (Parser.take >>= readNext) before :=
  (gives_take inside more).follows_bind_onward goesOn

theorem gives_bind_take (more : (before.token text).lexeme ≠ .endOfInput) (value : α) :
    Gives text (text.take >>= fun _ => pure value) (Parser.take >>= fun _ => pure value) value
      before before.onward :=
  have taken := gives_take inside more
  taken.bind (gives_pure taken.leads.inside value)

/-- A lexeme is taken if it is at hand, and nothing is taken otherwise. -/
theorem gives_accept {lexeme : Lexeme} (real : lexeme ≠ .endOfInput) :
    Gives text (text.accept lexeme) (Parser.accept lexeme) true before before.onward ∨
      Gives text (text.accept lexeme) (Parser.accept lexeme) false before before := by
  by_cases here : (before.token text).lexeme = lexeme
  · refine .inl (gives_bind_lexeme inside ?_)
    rw [if_pos here, if_pos here]
    exact gives_bind_take inside (here ▸ real) true
  · refine .inr (gives_bind_lexeme inside ?_)
    rw [if_neg here, if_neg here]
    exact gives_pure inside false

theorem gives_typeName? :
    (∃ type, Gives text text.typeName? Parser.typeName? (some type) before before.onward) ∨
      Gives text text.typeName? Parser.typeName? none before before := by
  have other := gives_pure inside (none : Option TypeName)
  cases here : (before.token text).lexeme with
  | keyword word =>
    have more : (before.token text).lexeme ≠ .endOfInput := by simp [here]
    have taken := fun type : TypeName => gives_bind_take inside more (some type)
    cases word with
    | intType => exact .inl ⟨.int, gives_bind_lexeme inside (by rw [here]; exact taken _)⟩
    | voidType => exact .inl ⟨.void, gives_bind_lexeme inside (by rw [here]; exact taken _)⟩
    | autoType => exact .inl ⟨.auto, gives_bind_lexeme inside (by rw [here]; exact taken _)⟩
    | _ => exact .inr (gives_bind_lexeme inside (by rw [here]; exact other))
  | _ => exact .inr (gives_bind_lexeme inside (by rw [here]; exact other))

theorem follows_accept {lexeme : Lexeme} (real : lexeme ≠ .endOfInput) :
    Follows text 0 (text.accept lexeme) (Parser.accept lexeme) before := by
  rcases gives_accept inside real with taken | left
  · exact taken.follows
  · exact left.follows

theorem typeName?_advances : Advances text 0 text.typeName? before := by
  rcases gives_typeName? inside with ⟨type, taken⟩ | left
  · exact taken.follows.advances
  · exact left.follows.advances

/-- Behind a lexeme that may be absent. -/
theorem follows_bind_accept {lexeme : Lexeme} {next : Bool → Walk α} {readNext : Bool → Parser α}
    (real : lexeme ≠ .endOfInput)
    (present : ∀ {after : Station}, before.Leads text after →
      before.position + 1 ≤ after.position →
      Follows text (gain - 1) (next true) (readNext true) after)
    (absent : Follows text gain (next false) (readNext false) before) :
    Follows text gain (text.accept lexeme >>= next) (Parser.accept lexeme >>= readNext) before := by
  rcases gives_accept inside real with taken | left
  · exact taken.follows_bind_onward present
  · exact left.follows_bind_stay absent

/-- Behind the name of a type, which may be absent. -/
theorem follows_bind_typeName? {next : Option TypeName → Walk α}
    {readNext : Option TypeName → Parser α}
    (present : ∀ type {after : Station}, before.Leads text after →
      before.position + 1 ≤ after.position →
      Follows text (gain - 1) (next (some type)) (readNext (some type)) after)
    (absent : Follows text gain (next none) (readNext none) before) :
    Follows text gain (text.typeName? >>= next) (Parser.typeName? >>= readNext) before := by
  rcases gives_typeName? inside with ⟨type, taken⟩ | left
  · exact taken.follows_bind_onward (present type)
  · exact left.follows_bind_stay absent

theorem follows_fail (problem : SyntaxProblem) :
    Follows text gain (text.fail problem : Walk α) (Parser.fail problem) before := by
  refine follows_bind_current inside (follows_ite (fun _ => ?_) fun _ => ?_)
  · exact ⟨_, before, rfl, rfl, inside.leads, nofun⟩
  · exact follows_reject inside problem _

theorem follows_expect (symbol : Mark) (expectation : Expectation) :
    Follows text 1 (text.expect symbol expectation) (Parser.expect symbol expectation) before := by
  refine follows_bind_current inside (follows_ite (fun here => ?_) fun _ => ?_)
  · exact (gives_bind_take inside (by simp [here]) _).follows_onward
  · exact follows_fail inside _

theorem follows_expectMark (symbol : Mark) :
    Follows text 1 (text.expectMark symbol) (Parser.expectMark symbol) before :=
  follows_expect inside symbol _

theorem follows_identifier :
    Follows text 1 text.identifier Parser.identifier before := by
  refine follows_bind_current inside ?_
  cases here : (before.token text).lexeme with
  | identifier name => exact (gives_bind_take inside (by simp [here]) _).follows_onward
  | _ => exact follows_fail inside _

end

/-! ## Nesting -/

section

variable {α : Type} {text : TokenText} {allowance gain : Nat}

theorem outcome_get {before : Station} :
    (get : Walk Station).outcome before = some (.ok before, before) := rfl

theorem outcome_nested {inner : Walk α} {before after : Station} {found : Except SourceError α}
    (room : before.depth < nestingLimit)
    (ended : inner.outcome before.inward = some (found, after)) :
    (text.nested inner).outcome before = some (found, after.outward) := by
  have entered : text.enter.outcome before = some (.ok (), before.inward) := by
    refine (outcome_bind_of_ok outcome_get).trans ?_
    rw [if_neg (Nat.not_le.mpr room)]
    rfl
  refine (outcome_bind_of_ok entered).trans ?_
  change (StateT.run (ExceptT.run inner) before.inward).bind _ = _
  rw [Walk.outcome] at ended
  rw [ended]
  rfl

/-- At the limit nothing is walked. -/
theorem nested_followsAt_zero (inner : Walk α) :
    FollowsAt text 0 gain (text.nested inner) Parser.tooDeep := by
  intro before placed
  have entered : text.enter.outcome before =
      (reject .nestingTooDeep (before.token text).span : Walk Unit).outcome before := by
    refine (outcome_bind_of_ok outcome_get).trans ?_
    rw [if_pos (show nestingLimit ≤ before.depth from Nat.le_of_eq placed.below.symm)]
    exact outcome_bind_of_ok (gives_current placed.toInside).walked
  exact ⟨_, before, outcome_bind_of_error entered, rfl, placed.leads, nofun⟩

theorem nested_followsAt {inner : Walk α} {reader : Parser α}
    (deeper : FollowsAt text allowance gain inner reader) :
    FollowsAt text (allowance + 1) gain (text.nested inner) reader := by
  rintro before ⟨inside, below⟩
  have room : before.depth < nestingLimit := by omega
  have inward : before.inward.At text allowance :=
    ⟨⟨inside.position, room, Nat.max_le.mpr ⟨inside.deepest, room⟩⟩, by
      change before.depth + 1 + allowance = _
      omega⟩
  obtain ⟨found, after, walked, read, leads, gained⟩ := deeper inward
  have depth : after.depth - 1 = before.depth := by rw [leads.depth]; rfl
  refine ⟨found, after.outward, outcome_nested room walked, read, ⟨leads.position, depth, ?_⟩,
    gained⟩
  exact ⟨leads.inside.position, Nat.le_trans (Nat.le_of_eq depth) inside.depth,
    leads.inside.deepest⟩

end

end TokenText

end IncrementalC.Syntax
