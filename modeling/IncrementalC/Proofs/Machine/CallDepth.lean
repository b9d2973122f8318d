import IncrementalC.Engine.Basic
import IncrementalC.Proofs.Machine.Hosting

/-!
Contract: the limit on nested calls cuts runs off and changes nothing else.

A run is watched from outside its frames: where calls begin and end, which call is refused
because it would be one too many, what natives are called and what is registered. Watching
changes no run. A call spends one of the calls that may still become active, and gives it
back when it ends. So a run that is not cut off never asks for more calls than it was
granted, and goes the same way if it is granted more.

Owns: the events of a run, the calls that are active at a moment, and how runs under
different limits agree.

Does not own: how many calls a program needs.
-/

namespace IncrementalC

namespace Machine

/-! ## Events -/

/-- What a run does that can be seen from outside its frames. -/
inductive RunEvent where
  /-- A call of a generated function begins. -/
  | entered (function : String)
  /-- The newest call that is active ends, with a value or stopped. -/
  | left (function : String)
  /-- A call would be one too many. -/
  | refused (function : String)
  | calledNative (name : String) (arguments : List Int64)
  | registered (registration : Registration)

/-- The number of calls that are active after the events, the newest of which comes first. -/
def activeCalls : List RunEvent → Nat
  | [] => 0
  | .entered _ :: earlier => activeCalls earlier + 1
  | .left _ :: earlier => activeCalls earlier - 1
  | .refused _ :: earlier | .calledNative _ _ :: earlier | .registered _ :: earlier =>
    activeCalls earlier

/-- The state with one more event beside the host. -/
def State.note {σ : Type} (event : RunEvent) (state : State (σ × List RunEvent)) :
    State (σ × List RunEvent) :=
  ⟨state.globals, state.host.1, event :: state.host.2⟩

/-- Runs the body of a call, and notes that the call begins and that it ends. -/
def duringCall {σ α : Type} (function : String)
    (body : Run (State (σ × List RunEvent)) α) : Run (State (σ × List RunEvent)) α :=
  fun state =>
    match body (state.note (.entered function)) with
    | .ok value after => .ok value (after.note (.left function))
    | .error stop after => .error stop (after.note (.left function))

end Machine

/-- The same services, with the events of native calls and registrations noted beside the
host. -/
def Services.observing {σ : Type} (services : Services σ) :
    Services (σ × List Machine.RunEvent) where
  callNative name arguments observed :=
    let (result, after) := services.callNative name arguments observed.1
    (result, after, .calledNative name arguments :: observed.2)
  registerAtExit function address argument observed :=
    (services.registerAtExit function address argument observed.1,
      .registered ⟨function, address, argument⟩ :: observed.2)

/-- Without what is noted, they are the same services. -/
theorem Services.observing_mirrored {σ : Type} (services : Services σ) :
    services.observing.Mirrored Prod.fst services where
  callNative _ _ _ := rfl
  registerAtExit _ _ _ _ := rfl

namespace Machine

variable {σ α : Type}

/-- Calls a function when `allowance` more calls may become active, and notes what happens. -/
def invokeObserved (machine : Machine) (services : Services σ) :
    (allowance : Nat) → Code.Function → List Int64 → Run (State (σ × List RunEvent)) Value
  | 0, function, _ => fun state =>
    .error (.fault (.stackOverflow (machine.limits.callDepth + 1)))
      (state.note (.refused function.name))
  | allowance + 1, function, arguments =>
    duringCall function.name
      (activate
        (machine.linkage services.observing (machine.invokeObserved services allowance))
        function arguments)

/-- Runs what stands at an address, and notes what happens. -/
def observe (machine : Machine) (services : Services σ) (address : Address)
    (arguments : List Value) (host : σ) : Except Stop Value × Machine × σ × List RunEvent :=
  machine.conclude
    (machine.runThrough services.observing
      (machine.invokeObserved services machine.limits.callDepth) address arguments
      ⟨machine.globals, host, []⟩)

/-- What happens while the code at an address runs, newest first. -/
def events (machine : Machine) (services : Services σ) (address : Address)
    (arguments : List Value) (host : σ) : List RunEvent :=
  (machine.observe services address arguments host).2.2.2

/-! ## Watching changes nothing -/

theorem duringCall_mirrors {cut : Stop → Prop} {body : Run (State (σ × List RunEvent)) α}
    {mirror : Run (State σ) α} (mirrors : Mirrors cut (State.view Prod.fst) body mirror)
    (function : String) :
    Mirrors cut (State.view Prod.fst) (duringCall function body) mirror := by
  intro state
  unfold duringCall
  rcases mirrors (state.note (.entered function)) with ⟨stop, after, stopped, isCut⟩ | same
  · exact .inl ⟨stop, _, by rw [stopped], isCut⟩
  · refine .inr (same.trans ?_)
    cases body (state.note (.entered function)) <;> rfl

theorem invokeObserved_mirrors {cut : Stop → Prop} (machine : Machine) (services : Services σ)
    (allowance : Nat) (function : Code.Function) (arguments : List Int64) :
    Mirrors cut (State.view Prod.fst) (machine.invokeObserved services allowance function arguments)
      (machine.invoke services allowance function arguments) := by
  induction allowance generalizing function arguments with
  | zero => exact .of_eq fun _ => rfl
  | succ allowance inductionHypothesis =>
    have linked := (mirrored_of_services services.observing_mirrored machine).linkage
      fun function _ => inductionHypothesis function
    exact duringCall_mirrors (activate_mirrors linked function (fun _ _ => trivial) arguments)
      function.name

theorem run_eq_observe (machine : Machine) (services : Services σ) (address : Address)
    (arguments : List Value) (host : σ) :
    machine.run services address arguments host =
      ((machine.observe services address arguments host).1,
        (machine.observe services address arguments host).2.1,
        (machine.observe services address arguments host).2.2.1) := by
  have mirrors : Mirrors (fun _ => False) (State.view Prod.fst) _ _ :=
    runThrough_mirrors (mirrored_of_services services.observing_mirrored machine)
      (fun function _ => machine.invokeObserved_mirrors services machine.limits.callDepth function)
      address rfl (fun _ _ => trivial) (fun _ _ _ => rfl) arguments
  unfold observe
  rw [run_eq_conclude, runAt_eq, ← conclude_seen]
  exact congrArg machine.conclude (mirrors.eq ⟨machine.globals, host, []⟩)

/-! ## Larger limits -/

/-- The machine with another limit on nested calls. -/
def withCallDepth (machine : Machine) (depth : Nat) : Machine :=
  { machine with limits := { machine.limits with callDepth := depth } }

/-- The limit on nested calls cuts the run off. -/
def Overflows (stop : Stop) : Prop := ∃ depth, stop = .fault (.stackOverflow depth)

theorem duringCall_alike {cut : Stop → Prop}
    {body other : Run (State (σ × List RunEvent)) α}
    (mirrors : Mirrors cut (State.view id) body other) (function : String) :
    Mirrors cut (State.view id) (duringCall function body) (duringCall function other) := by
  intro state
  unfold duringCall
  rcases mirrors (state.note (.entered function)) with ⟨stop, after, stopped, isCut⟩ | same
  · exact .inl ⟨stop, _, by rw [stopped], isCut⟩
  · refine .inr ?_
    change other (state.note (.entered function)) = _ at same
    rw [show (state.view id).note _ = state.note (.entered function) from rfl, same]
    cases body (state.note (.entered function)) <;> rfl

/-- A call that is not cut off goes the same way if more calls may become active. -/
theorem invokeObserved_alike (machine : Machine) (services : Services σ) {depth deeper : Nat}
    {allowance more : Nat} (le : allowance ≤ more) (function : Code.Function)
    (arguments : List Int64) :
    Mirrors Overflows (State.view id)
      ((machine.withCallDepth depth).invokeObserved services allowance function arguments)
      ((machine.withCallDepth deeper).invokeObserved services more function arguments) := by
  induction allowance generalizing more function arguments with
  | zero => exact fun state => .inl ⟨_, _, rfl, _, rfl⟩
  | succ allowance inductionHypothesis =>
    obtain ⟨rest, rfl⟩ := Nat.exists_eq_add_of_lt le
    have fewer : allowance ≤ allowance + rest := Nat.le_add_right allowance rest
    have linked := (mirrored_of_services services.observing.mirrored_id machine).linkage
      fun function _ => inductionHypothesis fewer function
    exact duringCall_alike (activate_mirrors linked function (fun _ _ => trivial) arguments)
      function.name

theorem seen_id (result : EStateM.Result Stop (State σ) α) :
    seen (State.view id) result = result := by
  cases result <;> rfl

/-- The limits have no part in how a run ends, once it has ended. -/
theorem conclude_withCallDepth (machine : Machine) (depth deeper : Nat)
    (result : EStateM.Result Stop (State σ) Value) :
    (machine.withCallDepth deeper).conclude result =
      (((machine.withCallDepth depth).conclude result).1,
        ((machine.withCallDepth depth).conclude result).2.1.withCallDepth deeper,
        ((machine.withCallDepth depth).conclude result).2.2) := by
  cases result <;> rfl

/-- A run that is not cut off is the same run, event by event, under every larger limit. -/
theorem observe_withCallDepth (machine : Machine) (services : Services σ) (address : Address)
    (arguments : List Value) (host : σ) {depth deeper : Nat} (le : depth ≤ deeper)
    (uncut : ∀ overflow,
      ((machine.withCallDepth depth).observe services address arguments host).1 ≠
        .error (.fault (.stackOverflow overflow))) :
    (machine.withCallDepth deeper).observe services address arguments host =
      (((machine.withCallDepth depth).observe services address arguments host).1,
        ((machine.withCallDepth depth).observe services address arguments host).2.1.withCallDepth
          deeper,
        ((machine.withCallDepth depth).observe services address arguments host).2.2) := by
  have invoked : ∀ function arguments, Mirrors Overflows (State.view id)
      ((machine.withCallDepth depth).invokeObserved services depth function arguments)
      ((machine.withCallDepth deeper).invokeObserved services deeper function arguments) :=
    machine.invokeObserved_alike services le
  rcases runThrough_mirrors (mirrored_of_services services.observing.mirrored_id machine)
    (fun function _ => invoked function) address rfl (fun _ _ => trivial) (fun _ _ _ => rfl)
    arguments ⟨machine.globals, host, []⟩ with ⟨stop, after, stopped, overflow, rfl⟩ | same
  · refine absurd ?_ (uncut overflow)
    exact congrArg (fun result => ((machine.withCallDepth depth).conclude result).1) stopped
  · rw [seen_id] at same
    exact (congrArg (machine.withCallDepth deeper).conclude same).trans
      (machine.conclude_withCallDepth depth deeper _)

/-! ## What the events of a run show -/

/-- The events of a run under a limit on nested calls. -/
structure KeepsTo (depth : Nat) (events : List RunEvent) : Prop where
  /-- At no moment are more calls active than the limit says. -/
  active : ∀ moment, moment <:+ events → activeCalls moment ≤ depth
  /-- A call is refused only while as many are active as may be. -/
  refused : ∀ function earlier, .refused function :: earlier <:+ events →
    activeCalls earlier = depth
  /-- A call ends only while one is active. -/
  left : ∀ function earlier, .left function :: earlier <:+ events → 0 < activeCalls earlier

theorem KeepsTo.nil (depth : Nat) : KeepsTo depth [] where
  active moment suffix := by
    obtain rfl := List.suffix_nil.mp suffix
    exact Nat.zero_le depth
  refused _ _ suffix := nomatch List.suffix_nil.mp suffix
  left _ _ suffix := nomatch List.suffix_nil.mp suffix

theorem KeepsTo.cons {depth : Nat} {event : RunEvent} {events : List RunEvent}
    (keeps : KeepsTo depth events) (active : activeCalls (event :: events) ≤ depth)
    (refused : ∀ function, event = .refused function → activeCalls events = depth)
    (left : ∀ function, event = .left function → 0 < activeCalls events) :
    KeepsTo depth (event :: events) where
  active moment suffix := by
    rcases List.suffix_cons_iff.mp suffix with rfl | earlier
    · exact active
    · exact keeps.active moment earlier
  refused function past suffix := by
    rcases List.suffix_cons_iff.mp suffix with same | earlier
    · obtain ⟨rfl, rfl⟩ := List.cons.inj same
      exact refused function rfl
    · exact keeps.refused function past earlier
  left function past suffix := by
    rcases List.suffix_cons_iff.mp suffix with same | earlier
    · obtain ⟨rfl, rfl⟩ := List.cons.inj same
      exact left function rfl
    · exact keeps.left function past earlier

/-- So many calls are active, and the limit was kept to so far. -/
structure Watched (depth active : Nat) (state : State (σ × List RunEvent)) : Prop where
  count : activeCalls state.host.2 = active
  keeps : KeepsTo depth state.host.2

section

variable {depth active : Nat} {state : State (σ × List RunEvent)} {allowed : Stop → Prop}

theorem Watched.active_le (watched : Watched depth active state) :
    activeCalls state.host.2 ≤ depth :=
  watched.keeps.active _ List.suffix_rfl

theorem Watched.enter (watched : Watched depth active state) (room : active < depth)
    (function : String) : Watched depth (active + 1) (state.note (.entered function)) where
  count := congrArg (· + 1) watched.count
  keeps := by
    refine watched.keeps.cons ?_ (fun _ other => nomatch other) fun _ other => nomatch other
    show activeCalls state.host.2 + 1 ≤ depth
    rw [watched.count]
    exact room

theorem Watched.leave (watched : Watched depth (active + 1) state) (function : String) :
    Watched depth active (state.note (.left function)) where
  count := congrArg (· - 1) watched.count
  keeps := by
    refine watched.keeps.cons ?_ (fun _ other => nomatch other) fun _ _ => ?_
    · exact Nat.le_trans (Nat.sub_le _ 1) watched.active_le
    · rw [watched.count]
      exact Nat.succ_pos active

theorem Watched.refuse (watched : Watched depth depth state) (function : String) :
    Watched depth depth (state.note (.refused function)) where
  count := watched.count
  keeps :=
    watched.keeps.cons watched.active_le (fun _ _ => watched.count) fun _ other => nomatch other

/-- The services, the variables and what is registered have no part in which calls are active. -/
theorem keptByUses_watched (machine : Machine) (services : Services σ) (depth active : Nat) :
    machine.KeptByUses services.observing (Watched depth active) where
  assigns _ _ watched := ⟨watched.count, watched.keeps⟩
  calls _ _ watched :=
    ⟨watched.count,
      watched.keeps.cons watched.active_le (fun _ other => nomatch other)
        fun _ other => nomatch other⟩
  registers _ _ watched :=
    ⟨watched.count,
      watched.keeps.cons watched.active_le (fun _ other => nomatch other)
        fun _ other => nomatch other⟩

theorem duringCall_within {body : Run (State (σ × List RunEvent)) α}
    (within : Within (Watched depth (active + 1)) allowed body) (room : active < depth)
    (function : String) : Within (Watched depth active) allowed (duringCall function body) := by
  intro state watched
  have ended := within _ (watched.enter room function)
  unfold duringCall
  cases finished : body (state.note (.entered function)) with
  | ok value after =>
    rw [finished] at ended
    exact Watched.leave ended function
  | error stop after =>
    rw [finished] at ended
    exact ⟨ended.1.leave function, ended.2⟩

/-- The calls that are active and those that may still become so are as many as the limit
says. -/
theorem invokeObserved_within {machine : Machine} {services : Services σ}
    (allows : machine.Allows services.observing allowed) (allowance : Nat)
    (spent : active + allowance = depth) (function : Code.Function)
    (fits : FitsFrame allowed function.room (Code.Statement.listSlots function.body))
    (arguments : List Int64) :
    Within (Watched depth active) allowed
      (machine.invokeObserved services allowance function arguments) := by
  induction allowance generalizing active function arguments with
  | zero =>
    obtain rfl : active = depth := spent
    exact fun state watched => ⟨watched.refuse function.name, allows.overflows⟩
  | succ allowance inductionHypothesis =>
    have room : active < depth := by omega
    have spentWithin : active + 1 + allowance = depth := by omega
    have keeps := keptByUses_watched machine services depth (active + 1)
    have permits := keeps.permits_of_allows allows
    have linked := permits.linkage fun function _ fits arguments =>
      inductionHypothesis spentWithin function fits arguments
    exact duringCall_within (activate_within linked function (fun _ _ => trivial) fits arguments)
      room function.name

end

/-! ## Runs -/

/-- The limit on nested calls cut the run off. -/
def IsCutOff (machine : Machine) (services : Services σ) (address : Address)
    (arguments : List Value) (host : σ) : Prop :=
  ∃ overflow, (machine.run services address arguments host).1 =
    .error (.fault (.stackOverflow overflow))

/-- Two machines come to the same when they run the code at an address, and do the same in
the course of it. -/
structure RunsAlike (machine other : Machine) (services : Services σ) (address : Address)
    (arguments : List Value) (host : σ) : Prop where
  result : (other.run services address arguments host).1 =
    (machine.run services address arguments host).1
  globals : (other.run services address arguments host).2.1.globals =
    (machine.run services address arguments host).2.1.globals
  hostAfter : (other.run services address arguments host).2.2 =
    (machine.run services address arguments host).2.2
  events : other.events services address arguments host =
    machine.events services address arguments host

theorem runsAlike_withCallDepth {machine : Machine} {services : Services σ} {address : Address}
    {arguments : List Value} {host : σ} {depth : Nat}
    (uncut : ¬(machine.withCallDepth depth).IsCutOff services address arguments host)
    {deeper : Nat} (le : depth ≤ deeper) :
    (machine.withCallDepth depth).RunsAlike (machine.withCallDepth deeper) services address
      arguments host := by
  unfold IsCutOff at uncut
  rw [run_eq_observe, not_exists] at uncut
  have same := machine.observe_withCallDepth services address arguments host le uncut
  refine ⟨?_, ?_, ?_, congrArg (·.2.2.2) same⟩
  · rw [run_eq_observe, run_eq_observe, same]
  · rw [run_eq_observe, run_eq_observe, same]
    rfl
  · rw [run_eq_observe, run_eq_observe, same]

/-- No native function answers that a call was one too many. -/
def NeverOverflow (services : Services σ) : Prop :=
  ∀ name arguments host depth,
    (services.callNative name arguments host).1 ≠ .error (.stackOverflow depth)

/-- If a call was one too many, it is one more than the limit. -/
def OneTooMany (services : Services σ) (depth : Nat) (stop : Stop) : Prop :=
  NeverOverflow services → ∀ overflow, stop = .fault (.stackOverflow overflow) →
    overflow = depth + 1

theorem allows_oneTooMany (machine : Machine) (services : Services σ) :
    machine.Allows services.observing (OneTooMany services machine.limits.callDepth) where
  unresolved _ := fun _ _ other => nomatch other
  native name arguments host fault answered := by
    rintro never overflow ⟨⟩
    exact absurd answered (never name arguments host.1 overflow)
  divides := fun _ _ other => nomatch other
  overflows := by
    rintro - _ ⟨⟩
    rfl
  endless := fun _ _ other => nomatch other
  fits _ _ := CodeUnit.fits_of_allowed (fun _ _ _ _ other => nomatch other) _

theorem EndsWithin.conclude {τ : Type} {kept : State τ → Prop} {allowed : Stop → Prop}
    {result : EStateM.Result Stop (State τ) Value} (within : EndsWithin kept allowed result)
    (machine : Machine) :
    kept ⟨(machine.conclude result).2.1.globals, (machine.conclude result).2.2⟩ ∧
      ∀ stop, (machine.conclude result).1 = .error stop → allowed stop := by
  cases result with
  | ok value after => exact ⟨within, fun _ other => nomatch other⟩
  | error stop after =>
    refine ⟨within.1, ?_⟩
    rintro _ ⟨⟩
    exact within.2

/-- At the end of a run no call is active, whatever stopped it, and the limit was kept to. -/
theorem observe_within (machine : Machine) (services : Services σ) (address : Address)
    (arguments : List Value) (host : σ) :
    (activeCalls (machine.events services address arguments host) = 0 ∧
        KeepsTo machine.limits.callDepth (machine.events services address arguments host)) ∧
      ∀ stop, (machine.run services address arguments host).1 = .error stop →
        OneTooMany services machine.limits.callDepth stop := by
  have allows := machine.allows_oneTooMany services
  have keeps := keptByUses_watched machine services machine.limits.callDepth 0
  have permits := keeps.permits_of_allows allows
  have invoked : ∀ function : Code.Function,
      (∀ use ∈ Code.Statement.listUses function.body, True) →
      FitsFrame (OneTooMany services machine.limits.callDepth) function.room
        (Code.Statement.listSlots function.body) →
      ∀ arguments, Within (Watched machine.limits.callDepth 0)
        (OneTooMany services machine.limits.callDepth)
        (machine.invokeObserved services machine.limits.callDepth function arguments) :=
    fun function _ fits arguments =>
      invokeObserved_within allows machine.limits.callDepth (Nat.zero_add _) function fits arguments
  have within := runThrough_within permits invoked address (fun _ _ => trivial)
    (fun _ _ _ _ _ other => nomatch other) arguments ⟨machine.globals, host, []⟩ ⟨rfl, .nil _⟩
  obtain ⟨watched, stops⟩ := EndsWithin.conclude within machine
  rw [run_eq_observe]
  exact ⟨⟨watched.count, watched.keeps⟩, stops⟩

/-- A run that the limit on nested calls does not cut off is the same run under every larger
limit: it comes to the same value or fault, leaves the same variables and host, and calls
and registers the same on the way. Under any limit no more calls are ever active than it
says, one is refused only if as many are, and the fault that cuts a run off tells of one
call more. -/
theorem call_depth_only_cuts_off (machine : Machine) (services : Services σ) (address : Address)
    (arguments : List Value) (host : σ) (depth : Nat) :
    (¬(machine.withCallDepth depth).IsCutOff services address arguments host →
      ∀ deeper, depth ≤ deeper →
        (machine.withCallDepth depth).RunsAlike (machine.withCallDepth deeper) services address
          arguments host) ∧
      KeepsTo depth ((machine.withCallDepth depth).events services address arguments host) ∧
      (NeverOverflow services → ∀ overflow,
        ((machine.withCallDepth depth).run services address arguments host).1 =
          .error (.fault (.stackOverflow overflow)) → overflow = depth + 1) := by
  obtain ⟨⟨-, keeps⟩, stops⟩ :=
    (machine.withCallDepth depth).observe_within services address arguments host
  refine ⟨fun uncut deeper le => runsAlike_withCallDepth uncut le, keeps, ?_⟩
  exact fun never overflow cut => stops _ cut never overflow rfl

/-- The native functions of an engine never answer so. -/
theorem hostServices_neverOverflow (owner : AtExitOwner) (origin : Option DeclarationId) :
    NeverOverflow (hostServices owner origin) := by
  intro name arguments host depth
  simp only [hostServices]
  rcases host.resolver.resolve name host.trace with ⟨_ | function, resolver, trace⟩
  · exact fun other => nomatch other
  · cases function with
    | host function => exact fun other => nomatch other
    | foreign known code =>
      cases code with
      | none => exact fun other => nomatch other
      | some code =>
        simp only [NativeFunction.call]
        split <;> exact fun other => nomatch other

/-- A machine with the code of `int down(int n) { if (n) return down(n - 1); return 7; }`. -/
def descending : Machine where
  limits := .standard
  modules :=
    [⟨⟨0⟩, none,
      [⟨"down", ⟨0⟩, 1, 1, true,
        [.choose (.slot 0)
          [.leave (some (.call "down" [.binary .subtract (.slot 0) (.integer 1)]))] [],
          .leave (some (.integer 7))]⟩], [], []⟩]
  globals := []
  nextModule := 1

/-- Three nested calls are enough for two steps down, and not for five. -/
theorem call_depth_cuts_off_a_descent :
    let services := hostServices (.transaction ⟨0⟩) none
    let host : HostState := ⟨.new .sharedObjects, [], []⟩
    let down : Address := ⟨⟨0⟩, .function, 0⟩
    let limited := descending.withCallDepth 3
    (¬limited.IsCutOff services down [.int 2] host ∧ 3 ≤ 9 ∧
        limited.RunsAlike (descending.withCallDepth 9) services down [.int 2] host) ∧
      KeepsTo 3 (limited.events services down [.int 5] host) ∧
      NeverOverflow services ∧ ∃ overflow,
        (limited.run services down [.int 5] host).1 = .error (.fault (.stackOverflow overflow)) ∧
          overflow = 3 + 1 := by
  intro services host down limited
  have uncut : ¬limited.IsCutOff services down [.int 2] host := by
    have ended : (limited.run services down [.int 2] host).1 = .ok (.int 7) := by decide +kernel
    rintro ⟨overflow, cut⟩
    rw [ended] at cut
    cases cut
  have cut : (limited.run services down [.int 5] host).1 = .error (.fault (.stackOverflow 4)) := by
    decide +kernel
  have never := hostServices_neverOverflow (.transaction ⟨0⟩) none
  obtain ⟨alike, -, -⟩ := call_depth_only_cuts_off descending services down [.int 2] host 3
  obtain ⟨-, keeps, overflows⟩ := call_depth_only_cuts_off descending services down [.int 5] host 3
  exact ⟨⟨uncut, by decide, alike uncut 9 (by decide)⟩, keeps, never, 4, cut, overflows never 4 cut⟩

end Machine

end IncrementalC
