import IncrementalC.Engine.Reachability
import IncrementalC.Proofs.Engine.Running

/-!
Contract: the search for missing names finds all of them and nothing else.

Owns: the names that code reaches, the names that something provides, and the names
that a search yields, with their order.

Does not own: what is done about missing names.
-/

namespace IncrementalC

/-- The names that code at some addresses uses, directly or through what it uses. -/
inductive Machine.Reaches (machine : Machine) (roots : List Address) : String → Prop where
  | uses {root : Address} {name : String} (start : root ∈ roots)
      (used : name ∈ machine.referencesAt root) : Machine.Reaches machine roots name
  | through {between name : String} {address : Address}
      (reached : Machine.Reaches machine roots between)
      (found : machine.resolve? between = some address)
      (used : name ∈ machine.referencesAt address) : Machine.Reaches machine roots name

/-- Generated code defines the name, or a native function has it. -/
def Provides (machine : Machine) (resolver : Resolver) (name : String) : Prop :=
  (machine.resolve? name).isSome ∨ (resolver.native? name).isSome

namespace Engine

/-- Asking for a native function leaves the generated code alone. -/
theorem resolvesNatively_eq (engine : Engine) (name : String) :
    (engine.resolvesNatively name).1 = (engine.host.resolver.native? name).isSome ∧
      (engine.resolvesNatively name).2.machine = engine.machine ∧
      (engine.resolvesNatively name).2.journal = engine.journal ∧
      engine.Continues (engine.resolvesNatively name).2 := by
  have resolved := engine.host.resolver.resolve_continues name engine.host.trace
  obtain ⟨events, trace⟩ := engine.host.resolver.resolve_trace name engine.host.trace
  refine ⟨?_, rfl, rfl, .refl _, rfl, ⟨resolved, ⟨events, trace⟩, [], rfl, ?_⟩, rfl⟩
  · show (engine.host.resolver.resolve name engine.host.trace).1.isSome = _
    rw [Resolver.resolve_fst]
  · exact fun _ member => absurd member List.not_mem_nil

namespace Search

variable {start : Engine} {roots active : List Address} {search : Search}

/-- Either the address is still to be looked at, or all that its code uses was met. -/
def Follows (start : Engine) (active : List Address) (search : Search) (address : Address) : Prop :=
  address ∈ active ∨ address ∈ search.queue ∨
    ∀ name ∈ start.machine.referencesAt address, name ∈ search.met

/-- What holds of a search that was started on `start`, while it looks at `active`. -/
structure Sound (start : Engine) (roots active : List Address) (search : Search) : Prop where
  machine : search.engine.machine = start.machine
  journal : search.engine.journal = start.journal
  engine : start.Continues search.engine
  met : ∀ name ∈ search.met, start.machine.Reaches roots name
  missing : ∀ name, name ∈ search.missing ↔
    name ∈ search.met ∧ ¬ Provides start.machine start.host.resolver name
  queue : ∀ address ∈ search.queue, address ∈ roots ∨
    ∃ name ∈ search.met, start.machine.resolve? name = some address
  roots : ∀ root ∈ roots, Follows start active search root
  names : ∀ name ∈ search.met, ∀ address, start.machine.resolve? name = some address →
    Follows start active search address

theorem sound_begin (start : Engine) (roots : List Address) :
    Sound start roots [] ⟨roots, [], [], start⟩ where
  machine := rfl
  journal := rfl
  engine := .refl start
  met _ member := absurd member List.not_mem_nil
  missing name := by simp
  queue address member := .inl member
  roots root member := .inr (.inl member)
  names _ member := absurd member List.not_mem_nil

theorem Follows.mono {longer : Search} {address : Address}
    (follows : Follows start active search address)
    (queue : ∀ queued ∈ search.queue, queued ∈ longer.queue)
    (met : ∀ name ∈ search.met, name ∈ longer.met) : Follows start active longer address := by
  rcases follows with here | queued | followed
  · exact .inl here
  · exact .inr (.inl (queue _ queued))
  · exact .inr (.inr fun name used => met name (followed name used))

section

variable (sound : Sound start roots active search) {name : String}

include sound

theorem Sound.met_cons (reached : start.machine.Reaches roots name) :
    ∀ other ∈ name :: search.met, start.machine.Reaches roots other := by
  intro other member
  rcases List.mem_cons.mp member with rfl | old
  · exact reached
  · exact sound.met other old

theorem Sound.queue_cons (name : String) : ∀ queued ∈ search.queue, queued ∈ roots ∨
    ∃ other ∈ name :: search.met, start.machine.resolve? other = some queued := by
  intro queued member
  apply (sound.queue queued member).imp_right
  rintro ⟨other, met, found⟩
  exact ⟨other, List.mem_cons_of_mem name met, found⟩

theorem Sound.missing_of_provided (provided : Provides start.machine start.host.resolver name)
    (other : String) : other ∈ search.missing ↔
      other ∈ name :: search.met ∧ ¬ Provides start.machine start.host.resolver other := by
  rw [sound.missing, List.mem_cons]
  constructor
  · rintro ⟨old, lacking⟩
    exact ⟨.inr old, lacking⟩
  · rintro ⟨rfl | old, lacking⟩
    · exact absurd provided lacking
    · exact ⟨old, lacking⟩

theorem Sound.missing_of_lacking (lacking : ¬ Provides start.machine start.host.resolver name)
    (other : String) : other ∈ NameSet.insert name search.missing ↔
      other ∈ name :: search.met ∧ ¬ Provides start.machine start.host.resolver other := by
  rw [NameSet.mem_insert, sound.missing, List.mem_cons]
  constructor
  · rintro (rfl | ⟨old, lacks⟩)
    · exact ⟨.inl rfl, lacking⟩
    · exact ⟨.inr old, lacks⟩
  · rintro ⟨rfl | old, lacks⟩
    · exact .inl rfl
    · exact .inr ⟨old, lacks⟩

/-- A defined name is provided, and its address is still to be looked at. -/
theorem Sound.meetDefined {address : Address} (reached : start.machine.Reaches roots name)
    (found : search.engine.machine.resolve? name = some address) :
    Sound start roots active
      { search with met := name :: search.met, queue := search.queue ++ [address] } := by
  rw [sound.machine] at found
  have provided : Provides start.machine start.host.resolver name := by
    left
    rw [found]
    rfl
  have grows : ∀ other, Follows start active search other → Follows start active
      { search with met := name :: search.met, queue := search.queue ++ [address] } other :=
    fun other follows => follows.mono (fun _ queued => List.mem_append_left _ queued)
      fun _ old => List.mem_cons_of_mem name old
  refine ⟨sound.machine, sound.journal, sound.engine, sound.met_cons reached,
    sound.missing_of_provided provided, ?_, ?_, ?_⟩
  · intro queued member
    rcases List.mem_append.mp member with old | new
    · exact sound.queue_cons name queued old
    · rw [List.mem_singleton.mp new]
      exact .inr ⟨name, List.mem_cons_self, found⟩
  · exact fun root member => grows root (sound.roots root member)
  · intro other member otherAddress otherFound
    rcases List.mem_cons.mp member with rfl | old
    · rw [found] at otherFound
      obtain rfl := Option.some.inj otherFound
      exact .inr (.inl (List.mem_append_right _ (List.mem_singleton_self _)))
    · exact grows _ (sound.names other old otherAddress otherFound)

/-- A name without a definition is missing unless a native function has it. -/
theorem Sound.meetUndefined (reached : start.machine.Reaches roots name)
    (undefined : search.engine.machine.resolve? name = none) :
    Sound start roots active
      { search with
        met := name :: search.met,
        missing := if (search.engine.resolvesNatively name).1 then search.missing
          else NameSet.insert name search.missing,
        engine := (search.engine.resolvesNatively name).2 } := by
  rw [sound.machine] at undefined
  obtain ⟨answer, machine, journal, continued⟩ := search.engine.resolvesNatively_eq name
  have provided : Provides start.machine start.host.resolver name ↔
      (search.engine.resolvesNatively name).1 = true := by
    unfold Provides
    rw [undefined, answer, sound.engine.host.resolver.native?_eq]
    simp
  have grows : ∀ other, Follows start active search other → Follows start active
      { search with
        met := name :: search.met,
        missing := if (search.engine.resolvesNatively name).1 then search.missing
          else NameSet.insert name search.missing,
        engine := (search.engine.resolvesNatively name).2 } other :=
    fun other follows => follows.mono (fun _ => id) fun _ old => List.mem_cons_of_mem name old
  refine ⟨machine.trans sound.machine, journal.trans sound.journal,
    sound.engine.trans continued, sound.met_cons reached, ?_, sound.queue_cons name, ?_, ?_⟩
  · by_cases native : (search.engine.resolvesNatively name).1 = true
    · simp only [if_pos native]
      exact sound.missing_of_provided (provided.mpr native)
    · simp only [if_neg native]
      exact sound.missing_of_lacking (mt provided.mp native)
  · exact fun root member => grows root (sound.roots root member)
  · intro other member otherAddress otherFound
    rcases List.mem_cons.mp member with rfl | old
    · rw [undefined] at otherFound
      cases otherFound
    · exact grows _ (sound.names other old otherAddress otherFound)

/-- Meeting a name that is reached keeps a search sound. -/
theorem Sound.meet (reached : start.machine.Reaches roots name) :
    Sound start roots active (search.meet name) := by
  unfold Search.meet
  split
  · exact sound
  · cases found : search.engine.machine.resolve? name with
    | some address => exact sound.meetDefined reached found
    | none => exact sound.meetUndefined reached found

end

theorem met_meet (search : Search) (name : String) :
    name ∈ (search.meet name).met ∧ ∀ other ∈ search.met, other ∈ (search.meet name).met := by
  unfold Search.meet
  split
  · next known => exact ⟨known, fun _ => id⟩
  · cases search.engine.machine.resolve? name with
    | some address => exact ⟨List.mem_cons_self, fun _ => List.mem_cons_of_mem name⟩
    | none => exact ⟨List.mem_cons_self, fun _ => List.mem_cons_of_mem name⟩

/-- All names that are met one after the other are met then, and those from before still are. -/
theorem met_meetAll (names : List String) (search : Search) :
    (∀ name ∈ names, name ∈ (names.foldl Search.meet search).met) ∧
      ∀ name ∈ search.met, name ∈ (names.foldl Search.meet search).met := by
  induction names generalizing search with
  | nil => exact ⟨fun _ member => absurd member List.not_mem_nil, fun _ => id⟩
  | cons head tail inductionHypothesis =>
    obtain ⟨headMet, kept⟩ := search.met_meet head
    obtain ⟨allMet, allKept⟩ := inductionHypothesis (search.meet head)
    refine ⟨?_, fun name old => allKept name (kept name old)⟩
    intro name member
    rcases List.mem_cons.mp member with rfl | later
    · exact allKept name headMet
    · exact allMet name later

theorem Sound.meetAll {names : List String} (sound : Sound start roots active search)
    (reached : ∀ name ∈ names, start.machine.Reaches roots name) :
    Sound start roots active (names.foldl Search.meet search) := by
  induction names generalizing search with
  | nil => exact sound
  | cons head tail inductionHypothesis =>
    exact inductionHypothesis (sound.meet (reached head List.mem_cons_self))
      fun name member => reached name (List.mem_cons_of_mem head member)

/-- Looking at the first address of the queue. -/
theorem Sound.look {address : Address} {rest : List Address}
    (sound : Sound start roots [] search) (queue : search.queue = address :: rest) :
    Sound start roots []
      ((search.engine.machine.referencesAt address).foldl Search.meet
        { search with queue := rest }) := by
  have reached : ∀ name ∈ search.engine.machine.referencesAt address,
      start.machine.Reaches roots name := by
    intro name used
    rw [sound.machine] at used
    have inQueue : address ∈ search.queue := by
      rw [queue]
      exact List.mem_cons_self
    rcases sound.queue address inQueue with root | ⟨between, met, found⟩
    · exact .uses root used
    · exact .through (sound.met between met) found used
  have moved : ∀ other, Follows start [] search other →
      Follows start [address] { search with queue := rest } other := by
    intro other follows
    rcases follows with here | queued | followed
    · exact absurd here List.not_mem_nil
    · rw [queue] at queued
      rcases List.mem_cons.mp queued with rfl | later
      · exact .inl (List.mem_singleton_self _)
      · exact .inr (.inl later)
    · exact .inr (.inr followed)
  have looking : Sound start roots [address] { search with queue := rest } :=
    { machine := sound.machine
      journal := sound.journal
      engine := sound.engine
      met := sound.met
      missing := sound.missing
      queue := by
        intro queued member
        apply sound.queue queued
        rw [queue]
        exact List.mem_cons_of_mem address member
      roots := fun root member => moved root (sound.roots root member)
      names := fun name met other found => moved other (sound.names name met other found) }
  have lookedAt := looking.meetAll reached
  obtain ⟨allMet, -⟩ := met_meetAll (search.engine.machine.referencesAt address)
    { search with queue := rest }
  rw [sound.machine] at lookedAt allMet ⊢
  -- Everything that the code at the address uses is met now.
  have finished : ∀ other, Follows start [address]
      ((start.machine.referencesAt address).foldl Search.meet { search with queue := rest })
      other → Follows start []
      ((start.machine.referencesAt address).foldl Search.meet { search with queue := rest })
      other := by
    intro other follows
    rcases follows with here | queued | followed
    · rw [List.mem_singleton.mp here]
      exact .inr (.inr allMet)
    · exact .inr (.inl queued)
    · exact .inr (.inr followed)
  exact { lookedAt with
    roots := fun root member => finished root (lookedAt.roots root member)
    names := fun name met other found => finished other (lookedAt.names name met other found) }

/-! ## Rounds -/

/-- How many rounds a search still takes: those of the queue, and one for each defined
name that was not met. -/
def remaining (search : Search) : Nat :=
  search.queue.length +
    (search.engine.machine.definedNames.filter fun name => decide (name ∉ search.met)).length

theorem remaining_meet (search : Search) (name : String) :
    (search.meet name).remaining ≤ search.remaining := by
  unfold Search.meet
  split
  · exact Nat.le_refl _
  · next unmet =>
    have fewer : ∀ names : List String,
        names.filter (fun other => decide (other ∉ name :: search.met)) =
          (names.filter fun other => decide (other ∉ search.met)).filter
            fun other => decide (other ≠ name) := by
      intro names
      rw [List.filter_filter]
      apply List.filter_congr
      intro other _
      simp [not_or]
    cases found : search.engine.machine.resolve? name with
    | some address =>
      have defined : name ∈ search.engine.machine.definedNames := by
        rw [← Machine.isSome_resolve?_iff, found]
        rfl
      have counted : name ∈ search.engine.machine.definedNames.filter
          fun other => decide (other ∉ search.met) :=
        List.mem_filter.mpr ⟨defined, decide_eq_true unmet⟩
      have smaller := List.length_filter_lt_length_iff_exists
        (p := fun other => decide (other ≠ name)) |>.mpr ⟨name, counted, by simp⟩
      simp only [remaining, fewer, List.length_append, List.length_singleton]
      omega
    | none =>
      obtain ⟨-, machine, -⟩ := search.engine.resolvesNatively_eq name
      simp only [remaining, machine, fewer]
      have smaller := List.length_filter_le (fun other => decide (other ≠ name))
        (search.engine.machine.definedNames.filter fun other => decide (other ∉ search.met))
      omega

theorem remaining_meetAll (names : List String) (search : Search) :
    (names.foldl Search.meet search).remaining ≤ search.remaining := by
  induction names generalizing search with
  | nil => exact Nat.le_refl _
  | cons head tail inductionHypothesis =>
    exact Nat.le_trans (inductionHypothesis (search.meet head)) (search.remaining_meet head)

/-- With enough rounds a search follows everything. -/
theorem run_sound {rounds : Nat} (sound : Sound start roots [] search)
    (enough : search.remaining ≤ rounds) :
    Sound start roots [] (run rounds search) ∧ (run rounds search).queue = [] := by
  induction rounds generalizing search with
  | zero =>
    refine ⟨sound, List.eq_nil_of_length_eq_zero ?_⟩
    unfold remaining at enough
    show search.queue.length = 0
    omega
  | succ rounds inductionHypothesis =>
    simp only [run]
    cases queue : search.queue with
    | nil => exact ⟨sound, queue⟩
    | cons address rest =>
      apply inductionHypothesis (sound.look queue)
      have less : ({ search with queue := rest } : Search).remaining + 1 = search.remaining := by
        simp only [remaining, queue, List.length_cons]
        omega
      have bound := remaining_meetAll (search.engine.machine.referencesAt address)
        { search with queue := rest }
      omega

/-! ## Order -/

theorem ascending_meet (name : String) (ascending : search.missing.Pairwise (· < ·)) :
    (search.meet name).missing.Pairwise (· < ·) := by
  unfold Search.meet
  split
  · exact ascending
  · cases search.engine.machine.resolve? name with
    | some address => exact ascending
    | none =>
      dsimp only
      split
      · exact ascending
      · exact NameSet.ascending_insert ascending

theorem ascending_run (rounds : Nat) (ascending : search.missing.Pairwise (· < ·)) :
    (run rounds search).missing.Pairwise (· < ·) := by
  induction rounds generalizing search with
  | zero => exact ascending
  | succ rounds inductionHypothesis =>
    simp only [run]
    split
    · exact ascending
    · apply inductionHypothesis
      apply List.foldlRecOn (motive := fun search : Search => search.missing.Pairwise (· < ·))
      · exact ascending
      · exact fun _ older name _ => ascending_meet name older

/-! ## The engine -/

variable {kept : Engine → Prop}

theorem meet_keeps (asked : ∀ engine name, kept engine → kept (engine.resolvesNatively name).2)
    (name : String) (holds : kept search.engine) : kept (search.meet name).engine := by
  unfold Search.meet
  split
  · exact holds
  · cases search.engine.machine.resolve? name with
    | some address => exact holds
    | none => exact asked search.engine name holds

theorem run_keeps (asked : ∀ engine name, kept engine → kept (engine.resolvesNatively name).2)
    (rounds : Nat) (holds : kept search.engine) : kept (run rounds search).engine := by
  induction rounds generalizing search with
  | zero => exact holds
  | succ rounds inductionHypothesis =>
    simp only [run]
    split
    · exact holds
    · apply inductionHypothesis
      apply List.foldlRecOn (motive := fun search : Search => kept search.engine)
      · exact holds
      · exact fun _ older name _ => meet_keeps asked name older

end Search

/-! ## Missing names -/

variable (engine : Engine) (roots : List Address)

/-- What asking for native functions keeps, a search keeps. -/
theorem missingNames_keeps (kept : Engine → Prop)
    (asked : ∀ engine name, kept engine → kept (engine.resolvesNatively name).2)
    (holds : kept engine) : kept (engine.missingNames roots).2 :=
  Search.run_keeps asked _ holds

theorem missingNames_sound :
    Search.Sound engine roots [] (Search.run (engine.searchRounds roots) ⟨roots, [], [], engine⟩) ∧
      (Search.run (engine.searchRounds roots) ⟨roots, [], [], engine⟩).queue = [] := by
  apply Search.run_sound (Search.sound_begin engine roots)
  have fewer := List.length_filter_le (fun name => decide (name ∉ ([] : List String)))
    engine.machine.definedNames
  unfold Search.remaining searchRounds
  exact Nat.add_le_add_left fewer roots.length

/-- A search lets the creator answer, and nothing else. -/
theorem missingNames_continues :
    engine.Continues (engine.missingNames roots).2 ∧
      (engine.missingNames roots).2.machine = engine.machine ∧
      (engine.missingNames roots).2.journal = engine.journal := by
  obtain ⟨sound, -⟩ := engine.missingNames_sound roots
  exact ⟨sound.engine, sound.machine, sound.journal⟩

/-- A search yields the names that are reached and that nothing provides. -/
theorem mem_missingNames_iff (name : String) :
    name ∈ (engine.missingNames roots).1 ↔
      engine.machine.Reaches roots name ∧ ¬ Provides engine.machine engine.host.resolver name := by
  obtain ⟨sound, empty⟩ := engine.missingNames_sound roots
  have followed : ∀ address,
      Search.Follows engine [] (Search.run (engine.searchRounds roots) ⟨roots, [], [], engine⟩)
        address →
      ∀ used ∈ engine.machine.referencesAt address,
        used ∈ (Search.run (engine.searchRounds roots) ⟨roots, [], [], engine⟩).met := by
    intro address follows
    rcases follows with here | queued | followed
    · exact absurd here List.not_mem_nil
    · rw [empty] at queued
      exact absurd queued List.not_mem_nil
    · exact followed
  have complete : ∀ reached, engine.machine.Reaches roots reached →
      reached ∈ (Search.run (engine.searchRounds roots) ⟨roots, [], [], engine⟩).met := by
    intro reached reaches
    induction reaches with
    | uses root used => exact followed _ (sound.roots _ root) _ used
    | through _ found used inductionHypothesis =>
      exact followed _ (sound.names _ inductionHypothesis _ found) _ used
  unfold missingNames
  rw [sound.missing]
  constructor
  · rintro ⟨met, lacking⟩
    exact ⟨sound.met name met, lacking⟩
  · rintro ⟨reached, lacking⟩
    exact ⟨complete name reached, lacking⟩

/-- A search yields names in strictly ascending order. -/
theorem ascending_missingNames : (engine.missingNames roots).1.Pairwise (· < ·) :=
  Search.ascending_run _ .nil

end Engine

end IncrementalC
