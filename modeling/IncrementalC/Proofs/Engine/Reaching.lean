import Mathlib.Logic.Relation
import IncrementalC.Proofs.Engine.Search

/-!
Contract: a search for missing names follows exactly the chains of references.

A search may come to an address again, when it is a root twice or a root and the address of a
name. Nothing is met there that was not met before, so that it does not matter whether the
search remembers where it has been.

Owns: chains of references between addresses, the search that remembers addresses, and that a
search ends.

Does not own: the invariant of a search, or what is done about missing names.
-/

namespace IncrementalC

/-! ## Chains of references -/

/-- The code at `source` uses a name whose address is `target`. -/
def Machine.Refers (machine : Machine) (source target : Address) : Prop :=
  ∃ name ∈ machine.referencesAt source, machine.resolve? name = some target

/-- A name is reached if a chain of references leads from a root to code that uses it. -/
theorem Machine.reaches_iff (machine : Machine) (roots : List Address) (name : String) :
    machine.Reaches roots name ↔
      ∃ root ∈ roots, ∃ last, Relation.ReflTransGen machine.Refers root last ∧
        name ∈ machine.referencesAt last := by
  constructor
  · intro reaches
    induction reaches with
    | @uses root name start used => exact ⟨root, start, root, .refl, used⟩
    | @through between name address _ found used inductionHypothesis =>
      obtain ⟨root, start, last, chain, usedThere⟩ := inductionHypothesis
      exact ⟨root, start, address, chain.tail ⟨between, usedThere, found⟩, used⟩
  · rintro ⟨root, start, last, chain, used⟩
    induction chain generalizing name with
    | refl => exact .uses start used
    | @tail middle last _ step inductionHypothesis =>
      obtain ⟨between, usedThere, found⟩ := step
      exact .through (inductionHypothesis between usedThere) found used

namespace Engine

namespace Search

/-! ## Remembering addresses -/

/-- Looks at queued addresses as `run` does, and at none of them twice. -/
def runOnce : (rounds : Nat) → (visited : List Address) → Search → Search
  | 0, _, search => search
  | rounds + 1, visited, search =>
    match search.queue with
    | [] => search
    | address :: rest =>
      if address ∈ visited then runOnce rounds visited { search with queue := rest }
      else
        let names := search.engine.machine.referencesAt address
        runOnce rounds (address :: visited) (names.foldl meet { search with queue := rest })

theorem meetAll_met {names : List String} {search : Search}
    (met : ∀ name ∈ names, name ∈ search.met) : names.foldl meet search = search := by
  induction names with
  | nil => rfl
  | cons head tail inductionHypothesis =>
    have same : search.meet head = search := if_pos (met head List.mem_cons_self)
    rw [List.foldl_cons, same]
    exact inductionHypothesis fun name member => met name (List.mem_cons_of_mem head member)

theorem machine_meet (search : Search) (name : String) :
    (search.meet name).engine.machine = search.engine.machine := by
  have asks : ∀ (engine : Engine) (asked : String), engine.machine = search.engine.machine →
      (engine.resolvesNatively asked).2.machine = search.engine.machine :=
    fun engine asked same => (engine.resolvesNatively_eq asked).2.1.trans same
  exact meet_keeps asks name rfl

theorem machine_meetAll (names : List String) (search : Search) :
    (names.foldl meet search).engine.machine = search.engine.machine := by
  induction names generalizing search with
  | nil => rfl
  | cons name rest inductionHypothesis =>
    exact (inductionHypothesis (search.meet name)).trans (search.machine_meet name)

/-- All that the code at visited addresses uses was met. -/
def Visited (visited : List Address) (search : Search) : Prop :=
  ∀ address ∈ visited, ∀ name ∈ search.engine.machine.referencesAt address, name ∈ search.met

/-- A search that does not remember addresses does nothing where it comes again. -/
theorem runOnce_eq_run {rounds : Nat} {visited : List Address} {search : Search}
    (known : Visited visited search) : runOnce rounds visited search = run rounds search := by
  induction rounds generalizing visited search with
  | zero => rfl
  | succ rounds inductionHypothesis =>
    simp only [runOnce, run]
    cases queue : search.queue with
    | nil => rfl
    | cons address rest =>
      dsimp only
      by_cases again : address ∈ visited
      · have nothingNew : (search.engine.machine.referencesAt address).foldl meet
            { search with queue := rest } = { search with queue := rest } :=
          meetAll_met (known address again)
        rw [if_pos again, nothingNew]
        exact inductionHypothesis known
      · rw [if_neg again]
        obtain ⟨allMet, kept⟩ :=
          met_meetAll (search.engine.machine.referencesAt address) { search with queue := rest }
        apply inductionHypothesis
        intro other member name used
        rw [machine_meetAll] at used
        rcases List.mem_cons.mp member with rfl | old
        · exact allMet name used
        · exact kept name (known other old name used)

/-! ## The end of a search -/

/-- More rounds change nothing once the queue is empty. -/
theorem run_add {rounds : Nat} {search : Search} (ended : (run rounds search).queue = [])
    (more : Nat) : run (rounds + more) search = run rounds search := by
  induction rounds generalizing search with
  | zero =>
    cases more with
    | zero => rfl
    | succ more =>
      have empty : search.queue = [] := ended
      simp only [run, empty]
  | succ rounds inductionHypothesis =>
    rw [Nat.succ_add]
    simp only [run] at ended ⊢
    cases queue : search.queue with
    | nil => rfl
    | cons address rest =>
      simp only [queue] at ended
      exact inductionHypothesis ended

end Search

/-- A search for missing names ends, whether or not it remembers addresses and however the
code refers to itself. It yields in strictly ascending order the names that have neither a
definition nor a native function and that are used at the end of a chain of references. -/
theorem missingNames_exact (engine : Engine) (roots : List Address) :
    (∀ more, ∃ search,
        Search.runOnce (engine.searchRounds roots + more) [] ⟨roots, [], [], engine⟩ = search ∧
          search.queue = [] ∧ engine.missingNames roots = (search.missing, search.engine)) ∧
      (engine.missingNames roots).1.Pairwise (· < ·) ∧
      ∀ name, name ∈ (engine.missingNames roots).1 ↔
        (∃ root ∈ roots, ∃ last, Relation.ReflTransGen engine.machine.Refers root last ∧
            name ∈ engine.machine.referencesAt last) ∧
          engine.machine.resolve? name = none ∧ engine.host.resolver.native? name = none := by
  obtain ⟨-, ended⟩ := engine.missingNames_sound roots
  refine ⟨fun more => ?_, engine.ascending_missingNames roots, fun name => ?_⟩
  · refine ⟨_, rfl, ?_⟩
    have nothing : Search.Visited [] ⟨roots, [], [], engine⟩ := fun _ member =>
      absurd member List.not_mem_nil
    rw [Search.runOnce_eq_run nothing, Search.run_add ended]
    exact ⟨ended, rfl⟩
  · rw [mem_missingNames_iff, Machine.reaches_iff]
    unfold Provides
    rw [not_or, Option.not_isSome_iff_eq_none, Option.not_isSome_iff_eq_none]

end Engine

end IncrementalC
