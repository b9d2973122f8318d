import IncrementalC.Proofs.Engine.Search
import IncrementalC.Proofs.Engine.WellFormed

/-!
Contract: which breakdowns running code ends in.

Well lowered code stays inside its frames and logged transactions are committed, so that a
run breaks down in a loop that does not end, if at all.

Owns: computations that come to an end or to a loop that does not, and that those of the
engine do.

Does not own: what a computation leaves when it comes to its end.
-/

namespace IncrementalC

/-- Not a breakdown, unless it is that of a loop that does not end. -/
def Stop.Foreseen (stop : Stop) : Prop :=
  ∀ breakdown, stop = .breakdown breakdown → breakdown = .endlessLoop

theorem Stop.foreseen_fault (fault : Fault) : Foreseen (.fault fault) := nofun

theorem Stop.foreseen_endlessLoop : Foreseen (.breakdown .endlessLoop) :=
  fun _ same => (Stop.breakdown.inj same).symm

/-- The computation ends as `afterwards` says, or in a loop that does not end. -/
def Completes {α : Type} (result : Except Breakdown α) (afterwards : α → Prop) : Prop :=
  match result with
  | .ok value => afterwards value
  | .error breakdown => breakdown = .endlessLoop

theorem Completes.mono {α : Type} {result : Except Breakdown α} {afterwards weaker : α → Prop}
    (completes : Completes result afterwards)
    (weakens : ∀ value, afterwards value → weaker value) : Completes result weaker := by
  cases result with
  | ok value => exact weakens value completes
  | error breakdown => exact completes

/-! ## Runs of code -/

namespace Machine

variable {σ : Type} {machine : Machine}

theorem WellLowered.permits_foreseen (lowered : machine.WellLowered) (services : Services σ) :
    machine.Permits services (fun _ => True) Stop.Foreseen (fun _ => True) := by
  have keeps : machine.KeptByUses services fun _ => True :=
    { assigns := fun _ _ _ => trivial
      calls := fun _ _ _ => trivial
      registers := fun _ _ _ => trivial }
  exact keeps.permits Stop.foreseen_fault Stop.foreseen_endlessLoop fun module member =>
    (lowered module member).framed.fits _

/-- Whatever stands at an address, and whatever the host does, running it leaves no frame. -/
theorem WellLowered.run_foreseen (lowered : machine.WellLowered) (services : Services σ)
    (address : Address) (arguments : List Value) (host : σ) {stop : Stop}
    (stopped : (machine.run services address arguments host).1 = .error stop) :
    stop.Foreseen := by
  have within := runAt_within (lowered.permits_foreseen services) address
    (fun _ _ => trivial) (fun _ _ _ => Stop.foreseen_fault _) arguments
    ⟨machine.globals, host⟩ trivial
  unfold run at stopped
  cases finished : machine.runAt services address arguments ⟨machine.globals, host⟩ with
  | ok value state =>
    rw [finished] at stopped
    cases stopped
  | error other state =>
    rw [finished] at stopped within
    obtain rfl := Except.error.inj stopped
    exact within.2

theorem Continues.wellLowered {before after : Machine} (continues : before.Continues after)
    (lowered : before.WellLowered) : after.WellLowered :=
  fun module member => lowered module (continues.modules ▸ member)

end Machine

namespace Engine

variable {engine : Engine}

theorem runFor_completes (lowered : engine.machine.WellLowered) (purpose : Purpose)
    (owner : AtExitOwner) (origin : Option DeclarationId) (address : Address)
    (arguments : List Value) :
    Completes (engine.runFor purpose owner origin address arguments) fun finished =>
      engine.machine.Continues finished.2.machine := by
  cases ran : engine.runFor purpose owner origin address arguments with
  | ok finished => exact (runFor_eq ran).1.machine
  | error breakdown =>
    have foreseen : ∀ stop : Stop, (engine.machine.run (hostServices owner origin) address arguments
        engine.host).1 = .error stop → stop.Foreseen :=
      fun _ => lowered.run_foreseen (hostServices owner origin) address arguments engine.host
    unfold runFor at ran
    rcases finished : engine.machine.run (hostServices owner origin) address arguments engine.host
      with ⟨(fault | other) | value, machine, host⟩
    · rw [finished] at ran
      cases ran
    · rw [finished] at ran foreseen
      obtain rfl := Except.error.inj ran
      exact foreseen _ rfl _ rfl
    · rw [finished] at ran
      cases ran

/-! ## Initialization -/

theorem runInitializers_completes (lowered : engine.machine.WellLowered) (owner : TransactionId)
    (entries : List Machine.InitializerEntry) :
    Completes (engine.runInitializers owner entries) fun finished =>
      engine.machine.Continues finished.2.machine := by
  induction entries generalizing engine with
  | nil => exact .refl _
  | cons entry rest inductionHypothesis =>
    have first := runFor_completes lowered .initializer (.transaction owner)
      (some entry.declaration) entry.address []
    unfold runInitializers
    split
    · next ran =>
      rw [ran] at first
      exact first
    · next ran =>
      rw [ran] at first
      exact first
    · next ran =>
      rw [ran] at first
      exact (inductionHypothesis (first.wellLowered lowered)).mono fun _ last => first.trans last

theorem initializeAll_completes {target : TransactionId} {blockage : Blockage}
    (lowered : engine.machine.WellLowered) (waiting : List Waiting) :
    Completes (initializeAll target engine blockage waiting) fun finished =>
      engine.machine.Continues finished.2.machine := by
  induction waiting generalizing engine blockage with
  | nil => exact .refl _
  | cons next rest inductionHypothesis =>
    have searching := (engine.missingNames_continues
      ((engine.machine.initializersOf next.module).map Machine.InitializerEntry.address)).1.machine
    have later : ∀ {between : Engine} {blockage : Blockage},
        engine.machine.Continues between.machine →
        Completes (initializeAll target between blockage rest) fun finished =>
          engine.machine.Continues finished.2.machine :=
      fun continues => (inductionHypothesis (continues.wellLowered lowered)).mono
        fun _ last => continues.trans last
    unfold initializeAll
    dsimp only
    split
    · exact later searching
    · have marked : (mark (engine.missingNames _).2 next.id).machine.WellLowered :=
        searching.wellLowered lowered
      have initializing := runInitializers_completes marked next.id
        (engine.machine.initializersOf next.module)
      unfold mark at initializing
      split
      · next ran =>
        rw [ran] at initializing
        exact initializing
      · next ran =>
        rw [ran] at initializing
        split
        · exact searching.trans initializing
        · exact later (searching.trans initializing)
      · next ran =>
        rw [ran] at initializing
        exact later (searching.trans initializing)

/-! ## Executions -/

theorem runEntry_completes (lowered : engine.machine.WellLowered) (id : TransactionId)
    (origin : Option DeclarationId) (entry : String) :
    Completes (engine.runEntry id origin entry) fun _ => True := by
  unfold runEntry
  split
  · trivial
  · next address _ =>
    have searching := (engine.missingNames_continues [address]).1.machine
    have running := runFor_completes (searching.wellLowered lowered) (.entry entry)
      (.transaction id) origin address []
    dsimp only
    split
    · split
      · next ran =>
        rw [ran] at running
        exact running
      · trivial
      · trivial
    · trivial

/-- An execution of a logged transaction is never refused for its state. -/
theorem emitAndRun_completes (wellFormed : engine.WellFormed) {log : TransactionLog}
    (committed : ∀ transaction ∈ log.entries, transaction.state = .committed) (id : TransactionId)
    (entry : Option String) : Completes (engine.emitAndRun log id entry) fun _ => True := by
  have lowered := wellFormed.emitPending.lowered
  unfold emitAndRun
  split
  · trivial
  · next transaction logged =>
    rw [if_neg (not_not.mpr (committed transaction (List.mem_of_find?_eq_some logged)))]
    split
    · trivial
    · trivial
    · have initializing : Completes (engine.emitPending.runStaticInitializers id) _ :=
        initializeAll_completes lowered _
      dsimp only
      split
      · trivial
      · split
        · next ran =>
          rw [ran] at initializing
          exact initializing
        · trivial
        · next ran =>
          rw [ran] at initializing
          cases entry with
          | none => trivial
          | some name => exact runEntry_completes (initializing.wellLowered lowered) _ _ _

/-! ## At-exit actions -/

theorem runAtExit_completes (lowered : engine.machine.WellLowered) (actions : List AtExitAction) :
    Completes (engine.runAtExit actions) fun _ => True := by
  induction actions generalizing engine with
  | nil => trivial
  | cons action rest inductionHypothesis =>
    unfold runAtExit
    split
    · exact inductionHypothesis lowered
    · next address argument _ =>
      have running := runFor_completes lowered .atExit action.owner action.origin address [argument]
      split
      · split
        · next ran =>
          rw [ran] at running
          exact running
        · next ran =>
          rw [ran] at running
          exact inductionHypothesis (running.wellLowered lowered)
      · exact inductionHypothesis lowered

theorem runOwned_completes (lowered : engine.machine.WellLowered) (owner : AtExitOwner) :
    Completes (engine.runOwned owner) fun _ => True := by
  have remaining :
      { engine with host.atExit := (engine.host.atExit.takeOwned owner).2 }.machine.WellLowered :=
    lowered
  have running := runAtExit_completes remaining (engine.host.atExit.takeOwned owner).1
  unfold runOwned
  dsimp only
  split
  · next ran =>
    rw [ran] at running
    exact running
  · trivial

theorem runStaticDestructors_completes (lowered : engine.machine.WellLowered) :
    Completes engine.runStaticDestructors fun _ => True := by
  have remaining :
      { engine with host.atExit := engine.host.atExit.drain.2 }.machine.WellLowered := lowered
  have running := runAtExit_completes remaining engine.host.atExit.drain.1
  unfold runStaticDestructors
  dsimp only
  split
  · next ran =>
    rw [ran] at running
    exact running
  · trivial

theorem unload_completes (lowered : engine.machine.WellLowered) (id : TransactionId) :
    Completes (engine.unload id) fun _ => True := by
  have running := runOwned_completes lowered (.transaction id)
  unfold unload
  split
  · next ran =>
    rw [ran] at running
    exact running
  · trivial

theorem unloadLibrary_completes (lowered : engine.machine.WellLowered) (name : String) :
    Completes (engine.unloadLibrary name) fun _ => True := by
  unfold unloadLibrary
  split
  · trivial
  · next canonical library _ =>
    have running := runOwned_completes lowered (.library canonical)
    split
    · trivial
    · split
      · next ran =>
        rw [ran] at running
        exact running
      · trivial

end Engine

end IncrementalC
