import IncrementalC.Proofs.Engine.State

/-!
Contract: what counts as initialized came first.

Owns: that an initialized transaction uses no name of an earlier one that is not, and that
tracking, generating, marking and dropping keep it so.

Does not own: which transactions are initialized.
-/

namespace IncrementalC.CodeStates

/-- A transaction that counts as initialized uses no name of an earlier one that does not,
and the code of no earlier one waits to be generated. -/
structure Precedent (states : CodeStates) : Prop where
  apart : ∀ {user earlier : TransactionId} {module earlierModule : ModuleId}
    {symbols references earlierSymbols earlierReferences : List String},
    find states user = some (.emitted module true symbols references) →
    find states earlier = some (.emitted earlierModule false earlierSymbols earlierReferences) →
    earlier.number < user.number → ∀ name ∈ references, name ∉ earlierSymbols
  generated : ∀ {user other : TransactionId} {module : ModuleId}
    {symbols references : List String} {unit : CodeUnit},
    find states user = some (.emitted module true symbols references) →
    find states other = some (.pending unit) → user.number < other.number

theorem precedent_nil : Precedent [] where
  apart absent := nomatch absent
  generated absent := nomatch absent

variable {states : CodeStates} {id : TransactionId}

/-! ## Tracking -/

/-- What is tracked last comes after everything that is initialized. -/
theorem Precedent.placeState (precedent : states.Precedent) {state : CodeState}
    (newest : ∀ entry ∈ states, entry.1.number < id.number) (noModule : state.module? = none) :
    Precedent (Engine.placeState id state states) := by
  have absent : ∀ entry ∈ states, entry.1 ≠ id := by
    rintro entry member rfl
    exact Nat.lt_irrefl _ (newest entry member)
  -- A state with a module is an old one.
  have old : ∀ {other : TransactionId} {module initialized symbols references},
      find (Engine.placeState id state states) other =
        some (.emitted module initialized symbols references) →
      find states other = some (.emitted module initialized symbols references) := by
    intro other module initialized symbols references found
    rw [find_placeState absent] at found
    split at found
    · obtain rfl := Option.some.inj found
      cases noModule
    · exact found
  constructor
  · intro user earlier module earlierModule symbols references earlierSymbols earlierReferences
      initialized waits
    exact precedent.apart (old initialized) (old waits)
  · intro user other module symbols references unit initialized waits
    rw [find_placeState absent] at waits
    split at waits
    · next same =>
      rw [← same]
      exact newest _ (mem_of_find (old initialized))
    · exact precedent.generated (old initialized) waits

/-! ## Generating -/

/-- A transaction has a state after generating exactly if it had one before, and the one
comes from the other. -/
theorem find_generated {generated : CodeStates}
    (moves : List.Forall₂ Engine.Generated states generated) (id : TransactionId) :
    (find states id = none ∧ find generated id = none) ∨
      ∃ old new, find states id = some old ∧ find generated id = some new ∧
        Engine.Generated (id, old) (id, new) := by
  induction moves with
  | nil => exact .inl ⟨rfl, rfl⟩
  | @cons old new _ _ head _ inductionHypothesis =>
    rw [find_cons, find_cons, ← head.id]
    by_cases same : old.1 = id
    · rw [if_pos same, if_pos same]
      exact .inr ⟨old.2, new.2, rfl, rfl, rfl, head.move, head.stays, head.settled⟩
    · rw [if_neg same, if_neg same]
      exact inductionHypothesis

/-- Generating initializes nothing. -/
theorem find_of_generated_initialized {generated : CodeStates}
    (moves : List.Forall₂ Engine.Generated states generated) {module : ModuleId}
    {symbols references : List String}
    (initialized : find generated id = some (.emitted module true symbols references)) :
    find states id = some (.emitted module true symbols references) := by
  rcases find_generated moves id with ⟨-, gone⟩ | ⟨old, new, before, after, move⟩
  · rw [gone] at initialized
    cases initialized
  · obtain rfl := Option.some.inj (after.symm.trans initialized)
    cases old with
    | pending unit => cases move.move
    | excluded => cases move.stays fun _ => nofun
    | failed error => cases move.stays fun _ => nofun
    | emitted otherModule otherInitialized otherSymbols otherReferences =>
      cases move.stays fun _ => nofun
      exact before

theorem Precedent.generate {generated : CodeStates} (precedent : states.Precedent)
    (moves : List.Forall₂ Engine.Generated states generated) : generated.Precedent where
  apart := by
    intro user earlier module earlierModule symbols references earlierSymbols earlierReferences
      initialized waits smaller
    have initializedBefore := find_of_generated_initialized moves initialized
    rcases find_generated moves earlier with ⟨-, gone⟩ | ⟨old, new, before, after, move⟩
    · rw [gone] at waits
      cases waits
    · obtain rfl := Option.some.inj (after.symm.trans waits)
      cases old with
      | pending unit =>
        have larger := precedent.generated initializedBefore before
        omega
      | excluded => cases move.stays fun _ => nofun
      | failed error => cases move.stays fun _ => nofun
      | emitted otherModule otherInitialized otherSymbols otherReferences =>
        cases move.stays fun _ => nofun
        exact precedent.apart initializedBefore before smaller
  generated := by
    intro user other module symbols references unit _ waits
    rcases find_generated moves other with ⟨-, gone⟩ | ⟨old, new, -, after, move⟩
    · rw [gone] at waits
      cases waits
    · obtain rfl := Option.some.inj (after.symm.trans waits)
      exact absurd rfl (move.settled unit)

/-! ## Marking -/

/-- A transaction may be marked once all code is generated, if it uses no name of an earlier
one that is not initialized. -/
theorem Precedent.markInitialized (precedent : states.Precedent)
    (settled : ∀ other unit, find states other ≠ some (.pending unit))
    (apart : ∀ {module earlierModule initialized symbols references earlierSymbols
        earlierReferences} {earlier : TransactionId},
      find states id = some (.emitted module initialized symbols references) →
      find states earlier = some (.emitted earlierModule false earlierSymbols earlierReferences) →
      earlier.number < id.number → ∀ name ∈ references, name ∉ earlierSymbols) :
    Precedent (Engine.markInitialized id states) := by
  -- A marked state is an old one, apart from the mark.
  have old : ∀ {other : TransactionId} {module initialized symbols references},
      find (Engine.markInitialized id states) other =
        some (.emitted module initialized symbols references) →
      ∃ before, find states other = some (.emitted module before symbols references) ∧
        (initialized = before ∨ other = id ∧ initialized = true) := by
    intro other module initialized symbols references found
    rw [find_markInitialized] at found
    obtain ⟨state, before, same⟩ := Option.map_eq_some_iff.mp found
    cases state with
    | emitted otherModule otherInitialized otherSymbols otherReferences =>
      unfold marked at same
      dsimp only at same
      split at same
      · next own =>
        cases same
        exact ⟨_, before, .inr ⟨own, rfl⟩⟩
      · cases same
        exact ⟨_, before, .inl rfl⟩
    | pending unit => cases same
    | excluded => cases same
    | failed error => cases same
  constructor
  · intro user earlier module earlierModule symbols references earlierSymbols earlierReferences
      initialized waits smaller
    obtain ⟨_, waitsBefore, rfl | ⟨-, absent⟩⟩ := old waits
    · obtain ⟨_, before, rfl | ⟨rfl, -⟩⟩ := old initialized
      · exact precedent.apart before waitsBefore smaller
      · exact apart before waitsBefore smaller
    · cases absent
  · intro user other module symbols references unit _ waits
    rw [find_markInitialized] at waits
    obtain ⟨state, before, same⟩ := Option.map_eq_some_iff.mp waits
    obtain rfl := eq_pending_of_marked same
    exact absurd before (settled other unit)

/-! ## Dropping -/

theorem Precedent.drop (precedent : states.Precedent) (id : TransactionId) :
    Precedent (states.filter fun entry => entry.1 ≠ id) := by
  have old : ∀ {other : TransactionId} {state : CodeState},
      find (states.filter fun entry => entry.1 ≠ id) other = some state →
      find states other = some state := by
    intro other state found
    rw [find_filter_ne] at found
    split at found
    · cases found
    · exact found
  exact ⟨fun initialized waits => precedent.apart (old initialized) (old waits),
    fun initialized waits => precedent.generated (old initialized) (old waits)⟩

end IncrementalC.CodeStates
