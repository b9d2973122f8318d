import Mathlib.Data.List.Perm.Basic
import IncrementalC.AtExit.Registry

/-!
Contract: what became of the registered actions, told from what was done.

A history lists what was done with at-exit actions, newest first. It alone says which
registrations are outstanding and which were handed out: registrations are numbered in
their order, so that two registrations of one action are told apart.

Owns:
- what can be done with at-exit actions, and histories of it;
- the registrations, what was handed out and what is outstanding after a history;
- that nothing is lost or handed out twice, and that whatever is handed out or
  outstanding stands newest first.

Does not own: the history of an engine.
-/

namespace IncrementalC

/-! ## Handing out -/

/-- Whether an action is due when one owner goes away, or all do. -/
def AtExitAction.isDue (owner : Option AtExitOwner) (action : AtExitAction) : Bool :=
  match owner with
  | some owner => action.owner = owner
  | none => true

/-- Hands out the actions of one owner, or all of them. -/
def AtExitRegistry.handOut (registry : AtExitRegistry) :
    Option AtExitOwner → List AtExitAction × AtExitRegistry
  | some owner => registry.takeOwned owner
  | none => registry.drain

theorem AtExitRegistry.handOut_eq (registry : AtExitRegistry) (owner : Option AtExitOwner) :
    registry.handOut owner =
      (registry.filter fun action => action.isDue owner,
        registry.filter fun action => !action.isDue owner) := by
  cases owner with
  | some owner => simp [handOut, takeOwned, AtExitAction.isDue]
  | none => simp [handOut, drain, AtExitAction.isDue]

/-! ## Histories -/

/-- What can be done with at-exit actions. -/
inductive AtExitDeed where
  | registered (action : AtExitAction)
  /-- The actions of one owner, or all, were handed out to be run in this order. -/
  | handedOut (owner : Option AtExitOwner) (actions : List AtExitAction)
  /-- It was the turn of an action that had been handed out. -/
  | called (action : AtExitAction)

/-- What was done with at-exit actions, newest first. -/
abbrev AtExitHistory : Type := List AtExitDeed

namespace AtExitHistory

/-- The registrations with their numbers, newest first. -/
def registrations : AtExitHistory → List (AtExitAction × Nat)
  | [] => []
  | .registered action :: earlier => (action, (registrations earlier).length) :: registrations earlier
  | .handedOut _ _ :: earlier | .called _ :: earlier => registrations earlier

/-- The actions that were registered, newest first. -/
def made (history : AtExitHistory) : List AtExitAction := history.registrations.map Prod.fst

/-- The registrations that were not handed out, newest first. -/
def outstanding : AtExitHistory → List (AtExitAction × Nat)
  | [] => []
  | .registered action :: earlier => (action, (registrations earlier).length) :: outstanding earlier
  | .handedOut owner _ :: earlier =>
    (outstanding earlier).filter fun registration => !registration.1.isDue owner
  | .called _ :: earlier => outstanding earlier

/-- What is due among the outstanding registrations, newest first. -/
def due (owner : Option AtExitOwner) (history : AtExitHistory) : List (AtExitAction × Nat) :=
  history.outstanding.filter fun registration => registration.1.isDue owner

/-- What was handed out each time, latest time first. -/
def handOuts : AtExitHistory → List (List (AtExitAction × Nat))
  | [] => []
  | .handedOut owner _ :: earlier => due owner earlier :: handOuts earlier
  | .registered _ :: earlier | .called _ :: earlier => handOuts earlier

/-- The actions that had their turn, latest first. -/
def calls : AtExitHistory → List AtExitAction
  | [] => []
  | .called action :: earlier => action :: calls earlier
  | .registered _ :: earlier | .handedOut _ _ :: earlier => calls earlier

theorem calls_append (later earlier : AtExitHistory) :
    calls (later ++ earlier) = calls later ++ calls earlier := by
  induction later with
  | nil => rfl
  | cons deed later inductionHypothesis =>
    cases deed with
    | registered action => exact inductionHypothesis
    | handedOut owner actions => exact inductionHypothesis
    | called action => exact congrArg (action :: ·) inductionHypothesis

/-- Nothing was handed out. -/
def HandsNothingOut (history : AtExitHistory) : Prop :=
  ∀ owner actions, .handedOut owner actions ∉ history

/-- Only registrations were made. -/
def OnlyRegisters (history : AtExitHistory) : Prop :=
  ∀ deed ∈ history, ∃ action, deed = .registered action

/-- What is done when an owner goes away, or all do: what is due is handed out, and then
each action that was handed out has its turn, in this order. When no owner goes away,
nothing is done but registering. -/
def Serves (ending : Option (Option AtExitOwner)) (history : AtExitHistory) : Prop :=
  match ending with
  | none => OnlyRegisters history
  | some owner => ∃ actions later, history = later ++ [.handedOut owner actions] ∧
      HandsNothingOut later ∧ calls later = actions.reverse

/-- All that was handed out is what the history before says to be due. -/
def HandsOutWhatIsDue (history : AtExitHistory) : Prop :=
  ∀ later owner actions earlier, history = later ++ .handedOut owner actions :: earlier →
    actions = (due owner earlier).map Prod.fst

theorem handsOutWhatIsDue_nil : HandsOutWhatIsDue [] :=
  fun later _ _ _ same => absurd same (by cases later <;> exact nofun)

theorem HandsOutWhatIsDue.cons {deed : AtExitDeed} {earlier : AtExitHistory}
    (settled : HandsOutWhatIsDue earlier)
    (newest : ∀ owner actions, deed = .handedOut owner actions →
      actions = (due owner earlier).map Prod.fst) :
    HandsOutWhatIsDue (deed :: earlier) := by
  intro later owner actions before same
  cases later with
  | nil =>
    obtain ⟨rfl, rfl⟩ := List.cons.inj same
    exact newest owner actions rfl
  | cons newer later => exact settled later owner actions before (List.cons.inj same).2

theorem HandsOutWhatIsDue.called {earlier : AtExitHistory} (settled : HandsOutWhatIsDue earlier)
    (action : AtExitAction) : HandsOutWhatIsDue (.called action :: earlier) :=
  settled.cons nofun

/-! ### Registrations only -/

section

variable (actions : List AtExitAction) (earlier : AtExitHistory)

theorem onlyRegisters_registered : OnlyRegisters (actions.map .registered) := by
  intro deed member
  obtain ⟨action, -, rfl⟩ := List.mem_map.mp member
  exact ⟨action, rfl⟩

theorem outstanding_registered :
    (outstanding (actions.map .registered ++ earlier)).map Prod.fst =
      actions ++ (outstanding earlier).map Prod.fst := by
  induction actions with
  | nil => rfl
  | cons action actions inductionHypothesis =>
    exact congrArg (action :: ·) inductionHypothesis

theorem HandsOutWhatIsDue.registered (settled : HandsOutWhatIsDue earlier) :
    HandsOutWhatIsDue (actions.map .registered ++ earlier) := by
  induction actions with
  | nil => exact settled
  | cons action actions inductionHypothesis => exact inductionHypothesis.cons nofun

end

theorem OnlyRegisters.handsNothingOut {history : AtExitHistory} (only : OnlyRegisters history) :
    HandsNothingOut history := by
  intro owner actions member
  obtain ⟨action, same⟩ := only _ member
  cases same

theorem HandsNothingOut.append {later earlier : AtExitHistory} (second : HandsNothingOut later)
    (first : HandsNothingOut earlier) : HandsNothingOut (later ++ earlier) := by
  intro owner actions member
  exact (List.mem_append.mp member).elim (second owner actions) (first owner actions)

theorem mem_made {history : AtExitHistory} {action : AtExitAction} :
    action ∈ made history ↔ .registered action ∈ history := by
  induction history with
  | nil => exact ⟨fun member => absurd member List.not_mem_nil, fun member => by cases member⟩
  | cons deed earlier inductionHypothesis =>
    cases deed with
    | registered newest =>
      rw [made, registrations, List.map_cons, List.mem_cons, ← made, inductionHypothesis,
        List.mem_cons, AtExitDeed.registered.injEq]
    | handedOut owner actions =>
      rw [List.mem_cons, or_iff_right nofun]
      exact inductionHypothesis
    | called other =>
      rw [List.mem_cons, or_iff_right nofun]
      exact inductionHypothesis

/-- Where nothing is handed out, what is registered comes on top. -/
theorem HandsNothingOut.outstanding_append {later : AtExitHistory}
    (nothing : HandsNothingOut later) (earlier : AtExitHistory) :
    (outstanding (later ++ earlier)).map Prod.fst =
      made later ++ (outstanding earlier).map Prod.fst := by
  induction later with
  | nil => rfl
  | cons deed later inductionHypothesis =>
    have rest := inductionHypothesis fun owner actions member =>
      nothing owner actions (List.mem_cons_of_mem deed member)
    cases deed with
    | registered action => exact congrArg (action :: ·) rest
    | handedOut owner actions => exact absurd List.mem_cons_self (nothing owner actions)
    | called action => exact rest

theorem OnlyRegisters.append {later earlier : AtExitHistory} (second : OnlyRegisters later)
    (first : OnlyRegisters earlier) : OnlyRegisters (later ++ earlier) := by
  intro deed member
  exact (List.mem_append.mp member).elim (second deed) (first deed)

theorem OnlyRegisters.calls_eq {history : AtExitHistory} (only : OnlyRegisters history) :
    calls history = [] := by
  induction history with
  | nil => rfl
  | cons deed earlier inductionHypothesis =>
    obtain ⟨onlyNewest, onlyEarlier⟩ := List.forall_mem_cons.mp only
    obtain ⟨action, rfl⟩ := onlyNewest
    exact inductionHypothesis onlyEarlier

/-! ## Conservation -/

open scoped List

/-- Every registration is outstanding or was handed out, and no registration both or
twice. -/
theorem registrations_perm (history : AtExitHistory) :
    history.registrations.Perm (history.handOuts.flatten ++ history.outstanding) := by
  induction history with
  | nil => exact .nil
  | cons deed earlier inductionHypothesis =>
    cases deed with
    | registered action =>
      exact (inductionHypothesis.cons _).trans List.perm_middle.symm
    | called action => exact inductionHypothesis
    | handedOut owner actions =>
      have parted : outstanding earlier ~
          due owner earlier ++ outstanding (.handedOut owner actions :: earlier) :=
        (List.filter_append_perm _ _).symm
      simp only [registrations, handOuts, List.flatten_cons]
      calc
        registrations earlier ~ (handOuts earlier).flatten ++ outstanding earlier :=
          inductionHypothesis
        _ ~ (handOuts earlier).flatten ++
            (due owner earlier ++ outstanding (.handedOut owner actions :: earlier)) :=
          parted.append_left _
        _ ~ due owner earlier ++ (handOuts earlier).flatten ++
            outstanding (.handedOut owner actions :: earlier) := by
          rw [← List.append_assoc]
          exact List.perm_append_comm.append_right _

/-! ## Order -/

/-- The later registration of two stands first. -/
def NewestFirst (registrations : List (AtExitAction × Nat)) : Prop :=
  registrations.Pairwise fun first second => second.2 < first.2

theorem newestFirst_registrations (history : AtExitHistory) :
    NewestFirst history.registrations ∧
      ∀ registration ∈ history.registrations, registration.2 < history.registrations.length := by
  induction history with
  | nil => exact ⟨.nil, fun _ member => absurd member List.not_mem_nil⟩
  | cons deed earlier inductionHypothesis =>
    cases deed with
    | registered action =>
      obtain ⟨ordered, bounded⟩ := inductionHypothesis
      refine ⟨List.pairwise_cons.mpr ⟨bounded, ordered⟩, ?_⟩
      intro registration member
      rcases List.mem_cons.mp member with rfl | old
      · exact Nat.lt_succ_self _
      · exact Nat.lt_succ_of_lt (bounded registration old)
    | called action => exact inductionHypothesis
    | handedOut owner actions => exact inductionHypothesis

theorem outstanding_sublist (history : AtExitHistory) :
    history.outstanding.Sublist history.registrations := by
  induction history with
  | nil => exact .slnil
  | cons deed earlier inductionHypothesis =>
    cases deed with
    | registered action => exact inductionHypothesis.cons_cons _
    | called action => exact inductionHypothesis
    | handedOut owner actions => exact List.filter_sublist.trans inductionHypothesis

/-- What waits for others keeps its order when something is handed out. -/
theorem newestFirst_outstanding (history : AtExitHistory) : NewestFirst history.outstanding :=
  (newestFirst_registrations history).1.sublist history.outstanding_sublist

theorem newestFirst_handOuts (history : AtExitHistory) :
    ∀ batch ∈ history.handOuts, NewestFirst batch := by
  induction history with
  | nil => exact fun _ member => absurd member List.not_mem_nil
  | cons deed earlier inductionHypothesis =>
    cases deed with
    | registered action => exact inductionHypothesis
    | called action => exact inductionHypothesis
    | handedOut owner actions =>
      intro batch member
      rcases List.mem_cons.mp member with rfl | old
      · exact (newestFirst_outstanding earlier).sublist List.filter_sublist
      · exact inductionHypothesis batch old

/-! ## Balance -/

/-- A history and the registry that it leaves account for each other. -/
structure Balances (history : AtExitHistory) (registry : AtExitRegistry) : Prop where
  /-- A registration is outstanding or was handed out once, and never both. -/
  conserved : registrations history ~ (handOuts history).flatten ++ outstanding history
  numbered : NewestFirst history.registrations
  pending : registry = history.outstanding.map Prod.fst
  pendingNewestFirst : NewestFirst history.outstanding
  handedOut : HandsOutWhatIsDue history
  handedOutNewestFirst : ∀ batch ∈ history.handOuts, NewestFirst batch

theorem balances {history : AtExitHistory} {registry : AtExitRegistry}
    (pending : registry = (outstanding history).map Prod.fst)
    (handedOut : HandsOutWhatIsDue history) : Balances history registry where
  conserved := registrations_perm history
  numbered := (newestFirst_registrations history).1
  pending
  pendingNewestFirst := newestFirst_outstanding history
  handedOut
  handedOutNewestFirst := newestFirst_handOuts history

end AtExitHistory

end IncrementalC
