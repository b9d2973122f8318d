import IncrementalC.Proofs.Engine.Containment
import IncrementalC.Proofs.Session.AtExit
import IncrementalC.Proofs.Session.Performing

/-!
Contract: an observer is told of what happens.

An operation adds transactions to the log, removes one from it, opens a library or closes one. An
observer who hears everything is told of each such change once, in order, and of nothing else, and
so knows the program without looking at it.

Owns: what is shown of a program, the notifications of a change of it, and that every operation
tells them.

Does not own: what code does while it runs.
-/

namespace IncrementalC

/-- What is shown of a program: the logged transactions and the open libraries, in order. -/
structure Shown where
  transactions : List Transaction
  libraries : List String
deriving DecidableEq

namespace Shown

/-- What is shown once a change is told. -/
def see (shown : Shown) : Notification → Shown
  | .committed transaction => { shown with transactions := shown.transactions ++ [transaction] }
  | .unloaded transaction =>
    { shown with transactions := shown.transactions.filter (·.id ≠ transaction.id) }
  | .libraryOpened name => { shown with libraries := shown.libraries ++ [name] }
  | .libraryClosed name => { shown with libraries := shown.libraries.filter (· ≠ name) }

/-- What is shown to someone who is told of every change, oldest first, and knows nothing else. -/
def replay (told : List Notification) : Shown := told.foldl see ⟨[], []⟩

/-- What there is to tell of a change. -/
def changes (before after : Shown) : List Notification :=
  (before.transactions.filter (· ∉ after.transactions)).map .unloaded ++
    (after.transactions.filter (· ∉ before.transactions)).map .committed ++
    (before.libraries.filter (· ∉ after.libraries)).map .libraryClosed ++
    (after.libraries.filter (· ∉ before.libraries)).map .libraryOpened

/-- No number is that of two transactions, and no library is open twice. -/
structure Distinct (shown : Shown) : Prop where
  transactions : (shown.transactions.map Transaction.id).Nodup
  libraries : shown.libraries.Nodup

/-- Transactions are added, one is removed, or a library is opened or closed, and it is told. -/
inductive Tells (before : Shown) : List Notification → Shown → Prop where
  | committed (transactions : List Transaction) :
      Tells before (transactions.map .committed)
        { before with transactions := before.transactions ++ transactions }
  | unloaded {transaction : Transaction} (logged : transaction ∈ before.transactions) :
      Tells before [.unloaded transaction]
        { before with transactions := before.transactions.filter (·.id ≠ transaction.id) }
  | opened {name : String} (closed : name ∉ before.libraries) :
      Tells before [.libraryOpened name] { before with libraries := before.libraries ++ [name] }
  | closed {name : String} (opened : name ∈ before.libraries) :
      Tells before [.libraryClosed name]
        { before with libraries := before.libraries.filter (· ≠ name) }

variable {before after : Shown} {told : List Notification}

theorem Tells.quiet (shown : Shown) : shown.Tells [] shown := by
  have none : shown.Tells _ _ := .committed []
  rwa [List.append_nil] at none

theorem foldl_see_committed (shown : Shown) (transactions : List Transaction) :
    (transactions.map .committed).foldl see shown =
      { shown with transactions := shown.transactions ++ transactions } := by
  induction transactions generalizing shown with
  | nil => simp
  | cons transaction rest inductionHypothesis =>
    rw [List.map_cons, List.foldl_cons, inductionHypothesis]
    simp [see]

/-- Who has seen the program before and is told of the change has seen it afterwards. -/
theorem Tells.foldl_see (tells : before.Tells told after) : told.foldl see before = after := by
  cases tells with
  | committed transactions => exact foldl_see_committed before transactions
  | unloaded logged => rfl
  | opened closed => rfl
  | closed opened => rfl

theorem Tells.libraries_nodup (tells : before.Tells told after) (nodup : before.libraries.Nodup) :
    after.libraries.Nodup := by
  cases tells with
  | committed transactions => exact nodup
  | unloaded logged => exact nodup
  | opened closed =>
    rw [← List.concat_eq_append]
    exact nodup.concat closed
  | closed opened => exact nodup.filter _

section

variable {α β : Type} [DecidableEq α] [DecidableEq β] {entries more : List α}

theorem filter_notMem_of_subset (subset : entries ⊆ more) : entries.filter (· ∉ more) = [] :=
  List.filter_eq_nil_iff.mpr fun _ member absent => of_decide_eq_true absent (subset member)

theorem filter_notMem_append (distinct : (entries ++ more).Nodup) :
    (entries ++ more).filter (· ∉ entries) = more := by
  obtain ⟨-, -, apart⟩ := List.nodup_append.mp distinct
  rw [List.filter_append, filter_notMem_of_subset (List.Subset.refl entries), List.nil_append]
  exact List.filter_eq_self.mpr fun entry member =>
    decide_eq_true fun old => apart entry old entry member rfl

/-- Where keys differ, removing the key of an entry removes that entry. -/
theorem filter_notMem_filter (key : α → β) {removed : α} (distinct : (entries.map key).Nodup)
    (member : removed ∈ entries) :
    entries.filter (· ∉ entries.filter (key · ≠ key removed)) = [removed] := by
  have only : entries.filter (· ∉ entries.filter (key · ≠ key removed)) =
      entries.filter (· = removed) := by
    refine List.filter_congr fun entry present => decide_eq_decide.mpr ?_
    have unique : key entry = key removed ↔ entry = removed :=
      ⟨fun same => List.inj_on_of_nodup_map distinct present member same, congrArg key⟩
    rw [List.mem_filter, ← unique]
    simp [present]
  rw [only, List.filter_eq, List.count_eq_one_of_mem distinct.of_map member]
  rfl

end

/-- What is told of a change is what there is to tell of it. -/
theorem Tells.changes_eq (tells : before.Tells told after) (began : before.Distinct)
    (ended : after.Distinct) : before.changes after = told := by
  have same : ∀ {α : Type} [DecidableEq α] (entries : List α), entries.filter (· ∉ entries) = [] :=
    fun entries => filter_notMem_of_subset (List.Subset.refl entries)
  unfold changes
  cases tells with
  | committed transactions =>
    rw [same, filter_notMem_of_subset (List.subset_append_left ..),
      filter_notMem_append ended.transactions.of_map]
    simp
  | unloaded logged =>
    rw [same, filter_notMem_of_subset (List.filter_subset_self ..),
      filter_notMem_filter Transaction.id began.transactions logged]
    simp
  | opened closed =>
    rw [same, filter_notMem_of_subset (List.subset_append_left ..),
      filter_notMem_append ended.libraries]
    simp
  | closed opened =>
    have distinct := began.libraries
    rw [← List.map_id before.libraries] at distinct
    have removes := filter_notMem_filter id distinct opened
    rw [same, filter_notMem_of_subset (List.filter_subset_self ..)]
    simpa using removes

end Shown

namespace Session

open AtExitHistory

/-- What is shown of a session. -/
def shown (session : Session) : Shown :=
  ⟨session.log.entries, session.engine.host.resolver.libraryNames⟩

/-- What an observer was told, oldest first. -/
def told (session : Session) : List Notification :=
  session.engine.host.trace.notifications.reverse

/-- The at-exit actions of the transaction have their turn, and then its removal is told. What is
still pending for it was registered meanwhile. -/
def RetiresFirst (session : Session) (transaction : Transaction) (after : Session) : Prop :=
  ∃ meanwhile engine,
    Engine.Retires (some (.transaction transaction.id)) session.engine meanwhile engine ∧
      (engine.host.atExit.takeOwned (.transaction transaction.id)).1 = made meanwhile ∧
      after.engine = engine.record (.notified (.unloaded transaction))

/-- What is shown changes as it is told. -/
structure Tells (session : Session) (news : List Notification) (after : Session) : Prop where
  shown : session.shown.Tells news after.shown
  told : after.told = session.told ++ news
  observer : after.observer = session.observer
  retired : ∀ transaction, .unloaded transaction ∈ news →
    news = [.unloaded transaction] ∧ session.RetiresFirst transaction after

/-- A sound session with an observer who hears everything. -/
structure Watched (session : Session) : Prop where
  sound : session.Sound
  attentive : session.observer = some .attentive
  libraries : session.shown.libraries.Nodup

variable {start session after : Session}

theorem Watched.distinct (watched : session.Watched) : session.shown.Distinct where
  transactions := by
    refine List.pairwise_map.mpr (watched.sound.compiler.logged.ascending.imp ?_)
    intro earlier later below same
    exact Nat.lt_irrefl _ (same ▸ below)
  libraries := watched.libraries

theorem Watched.tells (watched : session.Watched) {news : List Notification}
    (tells : session.Tells news after) (sound : after.Sound) : after.Watched :=
  ⟨sound, tells.observer.trans watched.attentive, tells.shown.libraries_nodup watched.libraries⟩

theorem tells_nothing (shown : after.shown = session.shown) (told : after.told = session.told)
    (observer : after.observer = session.observer) : session.Tells [] after where
  shown := shown ▸ .quiet session.shown
  told := told.trans (List.append_nil _).symm
  observer := observer
  retired := nofun

theorem tells_engine {engine : Engine} {known : AtExitOwner → Prop}
    (contained : session.engine.Contained known engine) :
    { session with engine }.shown = session.shown ∧
      { session with engine }.told = session.told := by
  constructor
  · unfold shown Resolver.libraryNames
    dsimp only
    rw [contained.libraries]
  · exact congrArg List.reverse contained.notifications

/-! ## Notifications -/

section

variable (attentive : session.observer = some .attentive) (notification : Notification)

include attentive

theorem notify_of_attentive : session.notify notification =
    { session with engine := session.engine.record (.notified notification) } := by
  unfold notify
  rw [attentive]
  rfl

theorem shown_notify : (session.notify notification).shown = session.shown := by
  rw [notify_of_attentive attentive]
  rfl

theorem told_notify : (session.notify notification).told = session.told ++ [notification] := by
  rw [notify_of_attentive attentive]
  exact List.reverse_cons

theorem observer_notify : (session.notify notification).observer = session.observer := by
  rw [notify_of_attentive attentive]

end

/-! ## Compiling and running -/

/-- All that happened is that transactions were added to the log, and it was told. -/
structure Grown (start session : Session) : Prop where
  sound : session.Sound
  attentive : session.observer = some .attentive
  libraries : session.shown.libraries = start.shown.libraries
  committed : ∃ committed, session.log.entries = start.log.entries ++ committed ∧
    session.told = start.told ++ committed.map .committed

namespace Grown

theorem refl (watched : session.Watched) : session.Grown session :=
  ⟨watched.sound, watched.attentive, rfl, [], (List.append_nil _).symm, (List.append_nil _).symm⟩

/-- Nothing is added and nothing told. -/
theorem quietly (grown : start.Grown session) (sound : after.Sound)
    (observer : after.observer = session.observer) (shown : after.shown = session.shown)
    (told : after.told = session.told) : start.Grown after := by
  obtain ⟨committed, entries, telling⟩ := grown.committed
  refine ⟨sound, observer.trans grown.attentive, ?_, committed, ?_, told.trans telling⟩
  · rw [shown]
    exact grown.libraries
  · exact (congrArg Shown.transactions shown).trans entries

theorem tells (grown : start.Grown session) (attentive : start.observer = some .attentive) :
    ∃ news, start.Tells news session := by
  obtain ⟨committed, entries, telling⟩ := grown.committed
  refine ⟨_, ?_, telling, grown.attentive.trans attentive.symm, ?_⟩
  · have shows : session.shown =
        { start.shown with transactions := start.shown.transactions ++ committed } :=
      congrArg₂ Shown.mk entries grown.libraries
    rw [shows]
    exact .committed committed
  · intro transaction member
    obtain ⟨_, _, other⟩ := List.mem_map.mp member
    cases other

end Grown

theorem keptByRuns_grown (start : Session) : KeptByRuns start.Grown where
  aside _ _ _ grown := grown.quietly (grown.sound.of_same rfl rfl rfl) rfl rfl rfl
  executed grown ran := by
    have contained : Engine.Contained (fun _ => True) _ _ :=
      Engine.emitAndRun_contained (fun _ _ => trivial) ran
    obtain ⟨shown, told⟩ := tells_engine contained
    exact grown.quietly
      (grown.sound.withEngine (Engine.emitAndRun_succeeds grown.sound.engine ran)) rfl shown told
  asked _ grown := grown.quietly (grown.sound.withHost _ _ rfl) rfl rfl rfl
  rejected grown compiled refused := by
    refine grown.quietly ((grown.sound.compiled compiled).2 refused) rfl ?_ rfl
    exact congrArg (Shown.mk · _) ((grown.sound.compiler.compile_appends compiled).2 refused)
  committed := by
    intro session request report compiler log grown compiled accepted
    obtain ⟨transaction, own, newest, handed⟩ := grown.sound.exists_newest compiled accepted
    obtain ⟨earlier, entries, telling⟩ := grown.committed
    have attentive : (handOver { session with compiler, log } transaction).observer =
        some .attentive := grown.attentive
    rw [← own]
    refine trackCommitted_ends newest.found ⟨handed.notify _,
      (observer_notify attentive _).trans attentive, ?_, earlier ++ [transaction], ?_, ?_⟩
    · rw [shown_notify attentive]
      exact grown.libraries
    · refine (congrArg Shown.transactions (shown_notify attentive _)).trans ?_
      rw [← List.append_assoc, ← entries]
      exact newest.entries
    · rw [told_notify attentive, List.map_append, ← List.append_assoc, ← telling]
      rfl
  abandoned grown := grown.quietly grown.sound.abandonOpen rfl rfl rfl

/-- Text that is not accepted changes nothing that is shown. -/
theorem compileAndRun_refused (sound : session.Sound) (text : String)
    (options : TransactionOptions) (entry : Option String) :
    Ends (compileAndRun text options entry) session fun outcome after =>
      outcome.verdict ≠ .success → after.shown = session.shown := by
  refine (compileAndRun_verdict text options entry session).mono ?_
  rintro outcome after ⟨report, compiler, log, compiled, verdict, settles⟩ refused
  rw [verdict] at refused
  rw [settles refused]
  exact congrArg (Shown.mk · _) ((sound.compiler.compile_appends compiled).2 refused)

theorem wrapInput_aside (mode : InputMode) (text : String) :
    Ends (wrapInput mode text) session fun _ after => ∃ names, after = { session with names } := by
  unfold wrapInput
  apply ends_get_bind
  apply ends_set_bind
  exact ends_pure ⟨_, rfl⟩

theorem runWrapped_refused (sound : session.Sound) (mode : InputMode) (text : String) :
    Ends (runWrapped mode text) session fun outcome after =>
      outcome.verdict ≠ .success → after.shown = session.shown := by
  have echoes : ∀ (value : Option Value) (between : Session),
      Ends (echoValue mode value) between fun _ after => after.shown = between.shown := by
    intro value between
    unfold echoValue
    split
    · exact ends_modify rfl
    · exact ends_pure rfl
  unfold runWrapped
  apply ends_bind
  refine (wrapInput_aside mode text).mono ?_
  rintro wrapped _ ⟨names, rfl⟩
  have aside : { session with names }.Sound := sound.of_same rfl rfl rfl
  apply ends_bind
  refine (compileAndRun_refused aside _ _ _).mono ?_
  intro compiled ran unchanged
  dsimp only
  split
  · next waits =>
    apply ends_bind
    apply ends_modify
    apply ends_bind
    apply ends_pure
    apply ends_bind
    refine (echoes _ _).mono fun _ after same => ends_pure fun _ => same.trans (unchanged ?_)
    rw [waits]
    exact nofun
  · apply ends_bind
    apply ends_pure
    apply ends_bind
    exact (echoes _ _).mono fun _ after same => ends_pure fun refused =>
      same.trans (unchanged refused)

theorem submitWrapped_refused (sound : session.Sound) (mode : InputMode) (text : String) :
    Ends (submitWrapped mode text) session fun outcome after =>
      outcome.verdict ≠ .success → after.shown = session.shown := by
  unfold submitWrapped
  apply ends_get_bind
  split
  · exact compileAndRun_refused sound _ _ _
  · split
    · exact runWrapped_refused sound mode text
    · apply ends_set_bind
      exact ends_pure fun _ => rfl

theorem submit_refused (sound : session.Sound) (mode : InputMode) (text : String) :
    Ends (submit mode text) session fun outcome after =>
      outcome.verdict ≠ .success → after.shown = session.shown := by
  unfold submit
  apply ends_get_bind
  split
  · have aside : { session with buffer := none }.Sound := sound.of_same rfl rfl rfl
    apply ends_set_bind
    exact submitWrapped_refused aside _ _
  · split
    · exact compileAndRun_refused sound _ _ _
    · cases mode with
      | declare => exact compileAndRun_refused sound _ _ _
      | headerOnly => exact compileAndRun_refused sound _ _ _
      | evaluate => exact submitWrapped_refused sound _ _
      | echo => exact submitWrapped_refused sound _ _
      | execute => exact submitWrapped_refused sound _ _

theorem process_refused (sound : session.Sound) (text : String) :
    Ends (process text) session fun outcome after =>
      outcome.verdict ≠ .success → after.shown = session.shown := by
  unfold process
  apply ends_get_bind
  split
  · exact submit_refused sound _ _
  · split
    · exact submit_refused sound _ _
    · exact submit_refused sound _ _

/-! ## Loading and unloading -/

/-- The name leads to a library that is open. -/
def hasOpen (session : Session) (name : String) : Bool :=
  ((session.engine.host.resolver.loader.locate? session.files name
    session.config.librarySearchPaths).bind session.engine.host.resolver.findLibrary?).isSome

/-- The file is open as a library, or is marked as a loaded source file. -/
def hasLoaded (session : Session) (path : String) (allowsSharedObject : Bool) : Bool :=
  if allowsSharedObject && Files.looksLikeSharedObject path then session.hasOpen path
  else (findLoaded? session.engine.loadedFiles ((session.files.canonical? path).getD path)
    .source).isSome

theorem loadLibrary_tells (watched : session.Watched) (name : String) (permanent : Bool) :
    Ends (loadLibrary name permanent) session fun opening after =>
      (∃ news, session.Tells news after) ∧
        (opening ≠ .success ∨ session.hasOpen name = true → after.shown = session.shown) := by
  rcases loading : session.engine.loadLibrary session.files name permanent
    session.config.librarySearchPaths with ⟨opening, engine⟩
  have succeeds := Engine.loadLibrary_succeeds watched.sound.engine session.files name permanent
    session.config.librarySearchPaths
  apply ends_modifyGet
  dsimp only
  rw [loading]
  rcases Engine.loadLibrary_opens loading with
    ⟨unopened, rfl⟩ | ⟨rfl, canonical, handle, located, unknown, names, marked, trace⟩
  · dsimp only
    split
    · exact absurd rfl unopened
    · exact ⟨⟨[], tells_nothing rfl rfl rfl⟩, fun _ => rfl⟩
  · have newest : engine.loadedFiles.getLast? = some ⟨canonical, .dynamicLibrary, some handle⟩ := by
      rw [marked]
      exact List.getLast?_concat
    have attentive : { session with engine }.observer = some .attentive := watched.attentive
    dsimp only
    rw [newest]
    refine ⟨⟨[.libraryOpened canonical], ?_, ?_, ?_, ?_⟩, ?_⟩
    · have shows : { session with engine }.shown =
          { session.shown with libraries := session.shown.libraries ++ [canonical] } :=
        congrArg (Shown.mk _) names
      rw [shown_notify attentive, shows]
      exact .opened (Resolver.notMem_libraryNames unknown)
    · rw [told_notify attentive]
      exact congrArg (List.reverse ·.notifications ++ [.libraryOpened canonical]) trace
    · exact observer_notify attentive _
    · intro transaction member
      cases List.mem_singleton.mp member
    · rintro (refused | opened)
      · exact absurd rfl refused
      · unfold hasOpen at opened
        rw [located, Option.bind_some, unknown] at opened
        cases opened

theorem unloadLibrary_tells (watched : session.Watched) (name : String) :
    Ends (unloadLibrary name) session fun unloading after =>
      (∃ news, session.Tells news after) ∧
        (unloading ≠ .unloaded → after.shown = session.shown) := by
  unfold unloadLibrary
  apply ends_get_bind
  apply ends_bind
  apply ends_withEngine
  intro result engine ran
  rcases Engine.unloadLibrary_closes ran with
    ⟨kept, rfl⟩ | ⟨rfl, canonical, found, opened, names, notifications⟩
  · split
    · exact absurd rfl kept
    · exact ends_pure ⟨⟨[], tells_nothing rfl rfl rfl⟩, fun _ => rfl⟩
  · have attentive : { session with engine }.observer = some .attentive := watched.attentive
    rw [found]
    apply ends_bind
    apply ends_modify
    refine ends_pure
      ⟨⟨[.libraryClosed canonical], ?_, ?_, ?_, ?_⟩, fun refused => absurd rfl refused⟩
    · have shows : { session with engine }.shown =
          { session.shown with libraries := session.shown.libraries.filter (· ≠ canonical) } :=
        congrArg (Shown.mk _) names
      rw [shown_notify attentive, shows]
      exact .closed opened
    · rw [told_notify attentive]
      exact congrArg (List.reverse · ++ [.libraryClosed canonical]) notifications
    · exact observer_notify attentive _
    · intro transaction member
      cases List.mem_singleton.mp member

/-- A source file that is not accepted changes nothing that is shown. -/
theorem loadSource_refused (sound : session.Sound) (name text : String) :
    Ends (loadSource name text) session fun verdict after =>
      verdict ≠ .success → after.shown = session.shown := by
  unfold loadSource
  apply ends_bind
  refine (compileAndRun_refused sound text .declaration none).mono ?_
  intro outcome ran unchanged
  split
  · apply ends_bind
    apply ends_modify
    exact ends_pure fun refused => absurd rfl refused
  · next waits =>
    apply ends_bind
    apply ends_modify
    exact ends_pure fun _ => unchanged (waits ▸ nofun)
  · next failed => exact ends_pure fun _ => unchanged (failed ▸ nofun)

theorem loadSource_tells (watched : session.Watched) (name text : String) :
    Ends (loadSource name text) session fun verdict after =>
      (∃ news, session.Tells news after) ∧
        (verdict ≠ .success → after.shown = session.shown) := by
  intro verdict after ended
  have grown : session.Grown after :=
    (keptByRuns_grown session).loadSource_ends (.refl watched) (fun {marked} grown =>
      grown.quietly (grown.sound.withHost _ _ rfl) rfl rfl rfl) text verdict after ended
  exact ⟨grown.tells watched.attentive, loadSource_refused watched.sound name text _ _ ended⟩

theorem loadFile_tells (watched : session.Watched) (path : String) (allowsSharedObject : Bool) :
    Ends (loadFile path allowsSharedObject) session fun verdict after =>
      (∃ news, session.Tells news after) ∧
        (verdict ≠ .success ∨ session.hasLoaded path allowsSharedObject = true →
          after.shown = session.shown) := by
  have nothing : session.Tells [] session := tells_nothing rfl rfl rfl
  unfold loadFile hasLoaded
  split
  · apply ends_bind
    refine (loadLibrary_tells watched path false).mono ?_
    rintro opening after ⟨tells, unchanged⟩
    cases opening with
    | error => exact ends_pure ⟨tells, fun _ => unchanged (.inl nofun)⟩
    | alreadyLoaded => exact ends_pure ⟨tells, fun _ => unchanged (.inl nofun)⟩
    | success =>
      refine ends_pure ⟨tells, fun refused => unchanged ?_⟩
      exact refused.imp_left fun other => absurd rfl other
  · apply ends_get_bind
    dsimp only
    split
    · exact ends_pure ⟨⟨[], nothing⟩, fun _ => rfl⟩
    · next fresh =>
      cases session.files.readText? path with
      | none => exact ends_pure ⟨⟨[], nothing⟩, fun _ => rfl⟩
      | some text =>
        refine (loadSource_tells watched _ text).mono ?_
        rintro verdict after ⟨tells, unchanged⟩
        exact ⟨tells, fun refused => unchanged (refused.resolve_right fresh)⟩

theorem UnloadEnds.tells {id : TransactionId} {unloading : Unloading}
    (unloads : UnloadEnds session id unloading after) (watched : session.Watched) :
    (∃ news, session.Tells news after) ∧
      (unloading ≠ .unloaded → after.shown = session.shown) := by
  have contained : session.engine.Contained (fun _ => True) session.engine.emitPending :=
    session.engine.emitPending_contained
  cases unloads with
  | unknown absent => exact ⟨⟨[], tells_nothing rfl rfl rfl⟩, fun _ => rfl⟩
  | refused logged policy used =>
    obtain ⟨shown, told⟩ := tells_engine contained
    exact ⟨⟨[], tells_nothing shown told rfl⟩, fun _ => shown⟩
  | @removed count engine transaction logged spared ran =>
    obtain rfl := TransactionLog.id_of_get? logged
    have contained := contained.trans (Engine.unload_contained (fun _ _ => trivial) ran)
    have removes :
        (session.remove transaction.id engine).log = session.log.erase transaction.id := by
      rw [remove_of_logged logged]
    have attentive : (session.remove transaction.id engine).observer = some .attentive :=
      watched.attentive
    refine ⟨⟨[.unloaded transaction], ?_, ?_, ?_, ?_⟩, fun refused => absurd rfl refused⟩
    · have shows : (session.remove transaction.id engine).shown = { session.shown with
          transactions := session.shown.transactions.filter (·.id ≠ transaction.id) } := by
        refine congrArg₂ Shown.mk (congrArg TransactionLog.entries removes) ?_
        exact congrArg (List.map Prod.fst) contained.libraries
      rw [shown_notify attentive, shows]
      exact .unloaded (TransactionLog.mem_of_get? logged)
    · rw [told_notify attentive]
      exact congrArg (List.reverse · ++ [.unloaded transaction]) contained.notifications
    · exact observer_notify attentive _
    · intro other member
      obtain rfl : other = transaction := by
        cases List.mem_singleton.mp member
        rfl
      refine ⟨rfl, ?_⟩
      obtain ⟨meanwhile, retires⟩ := Engine.unload_retires ran
      obtain ⟨registry, runs, code⟩ := session.engine.dependents_quiet other.id
      rw [session.engine.dependents_eq] at registry runs code
      refine ⟨meanwhile, engine, retires.preceded registry runs code,
        congrArg Prod.fst retires.takeOwned, ?_⟩
      rw [notify_of_attentive attentive]
      rfl

theorem unloadTransaction_tells (watched : session.Watched) (id : TransactionId) :
    Ends (unloadTransaction id) session fun unloading after =>
      (∃ news, session.Tells news after) ∧
        (unloading ≠ .unloaded → after.shown = session.shown) :=
  (unloadTransaction_unloadEnds session id).mono fun _ _ unloads => unloads.tells watched

theorem unloadLast_tells (watched : session.Watched) :
    Ends unloadLast session fun unloading after =>
      (∃ news, session.Tells news after) ∧
        (unloading ≠ .unloaded → after.shown = session.shown) := by
  unfold unloadLast
  apply ends_get_bind
  split
  · exact ends_pure ⟨⟨[], tells_nothing rfl rfl rfl⟩, fun _ => rfl⟩
  · exact unloadTransaction_tells watched _

/-! ## Operations -/

/-- The operation does not exchange the observer. -/
def Operation.keepsObserver : Operation → Bool
  | .setObserver _ => false
  | _ => true

/-- The request fails, is refused, or is for a file that is loaded already. -/
inductive Refuses (session : Session) : Operation → Answer → Prop where
  | outcome {operation : Operation} {outcome : Outcome} (failed : outcome.verdict ≠ .success) :
      Refuses session operation (.outcome outcome)
  | verdict {operation : Operation} {verdict : CompileVerdict} (failed : verdict ≠ .success) :
      Refuses session operation (.verdict verdict)
  | loaded {path : String} {allowsSharedObject : Bool} {answer : Answer}
      (loaded : session.hasLoaded path allowsSharedObject = true) :
      Refuses session (.loadFile path allowsSharedObject) answer
  | opening {operation : Operation} {opening : LibraryOpening} (unopened : opening ≠ .success) :
      Refuses session operation (.opening opening)
  | unloading {operation : Operation} {unloading : Unloading} (kept : unloading ≠ .unloaded) :
      Refuses session operation (.unloading unloading)

theorem runText_tells (watched : session.Watched) {operation : Operation}
    (runs : operation.runsText = true) :
    Ends (perform operation) session fun answer after =>
      (∃ news, session.Tells news after) ∧
        (session.Refuses operation answer → after.shown = session.shown) := by
  have grows := (keptByRuns_grown session).perform_ends (.refl watched) runs
  have refused : Ends (perform operation) session fun answer after =>
      session.Refuses operation answer → after.shown = session.shown := by
    cases operation with
    | submit mode text =>
      apply ends_map
      refine (submit_refused watched.sound mode text).mono fun _ _ unchanged => ?_
      exact fun | .outcome failed => unchanged failed
    | process text =>
      apply ends_map
      refine (process_refused watched.sound text).mono fun _ _ unchanged => ?_
      exact fun | .outcome failed => unchanged failed
    | cancelContinuation => exact ends_map fun _ _ _ => nofun
    | runFunction name => exact ends_map fun _ _ _ => nofun
    | emitAll id => exact ends_map fun _ _ _ => nofun
    | _ => cases runs
  exact fun answer after ended =>
    ⟨(grows answer after ended).tells watched.attentive, refused answer after ended⟩

/-- What an operation does to the program is told, and a request that is refused does nothing. -/
theorem perform_tells (watched : session.Watched) {operation : Operation}
    (keeps : operation.keepsObserver = true) :
    Ends (perform operation) session fun answer after =>
      (∃ news, session.Tells news after) ∧
        (session.Refuses operation answer → after.shown = session.shown) := by
  cases operation with
  | submit mode text => exact runText_tells watched rfl
  | process text => exact runText_tells watched rfl
  | cancelContinuation => exact runText_tells watched rfl
  | runFunction name => exact runText_tells watched rfl
  | emitAll id => exact runText_tells watched rfl
  | loadFile path allowsSharedObject =>
    apply ends_map
    refine (loadFile_tells watched path allowsSharedObject).mono ?_
    rintro verdict after ⟨tells, unchanged⟩
    refine ⟨tells, fun refuses => unchanged ?_⟩
    cases refuses with
    | verdict failed => exact .inl failed
    | loaded loaded => exact .inr loaded
  | loadLibrary name permanent =>
    apply ends_map
    refine (loadLibrary_tells watched name permanent).mono ?_
    rintro opening after ⟨tells, unchanged⟩
    exact ⟨tells, fun | .opening unopened => unchanged (.inl unopened)⟩
  | unloadLibrary name =>
    apply ends_map
    refine (unloadLibrary_tells watched name).mono ?_
    rintro unloading after ⟨tells, unchanged⟩
    exact ⟨tells, fun | .unloading kept => unchanged kept⟩
  | unload id =>
    apply ends_map
    refine (unloadTransaction_tells watched id).mono ?_
    rintro unloading after ⟨tells, unchanged⟩
    exact ⟨tells, fun | .unloading kept => unchanged kept⟩
  | unloadLast =>
    apply ends_map
    refine (unloadLast_tells watched).mono ?_
    rintro unloading after ⟨tells, unchanged⟩
    exact ⟨tells, fun | .unloading kept => unchanged kept⟩
  | addressOf name =>
    apply ends_map
    apply ends_withEngine
    intro location engine located
    obtain rfl : (session.engine.locate name).2 = engine :=
      congrArg Prod.snd (Except.ok.inj located)
    have contained : session.engine.Contained (fun _ => True) (session.engine.locate name).2 :=
      session.engine.locate_contained name
    obtain ⟨shown, told⟩ := tells_engine contained
    exact ⟨⟨[], tells_nothing shown told rfl⟩, nofun⟩
  | runStaticDestructors =>
    apply ends_map
    apply ends_withEngine
    intro count engine ran
    have contained : session.engine.Contained (fun _ => True) engine :=
      Engine.runStaticDestructors_contained (fun _ _ => trivial) ran
    obtain ⟨shown, told⟩ := tells_engine contained
    exact ⟨⟨[], tells_nothing shown told rfl⟩, nofun⟩
  | createUniqueName => exact ends_map (ends_modifyGet ⟨⟨[], tells_nothing rfl rfl rfl⟩, nofun⟩)
  | addFunction name function =>
    exact ends_map (ends_modify ⟨⟨[], tells_nothing rfl rfl rfl⟩, nofun⟩)
  | setCreator creator => exact ends_map (ends_modify ⟨⟨[], tells_nothing rfl rfl rfl⟩, nofun⟩)
  | setProvider provider => exact ends_map (ends_modify ⟨⟨[], tells_nothing rfl rfl rfl⟩, nofun⟩)
  | setObserver observer => cases keeps
  | setRawInput raw => exact ends_map (ends_modify ⟨⟨[], tells_nothing rfl rfl rfl⟩, nofun⟩)
  | provideLibrary name library =>
    apply ends_bind
    apply ends_modify
    exact ends_pure ⟨⟨[], tells_nothing rfl rfl rfl⟩, nofun⟩
  | changeFiles files =>
    apply ends_bind
    apply ends_modify
    exact ends_pure ⟨⟨[], tells_nothing rfl rfl rfl⟩, nofun⟩

/-- Who was told of everything so far has seen the program as it is. -/
theorem Tells.replays {news : List Notification} (tells : session.Tells news after)
    (replays : Shown.replay session.told = session.shown) :
    Shown.replay after.told = after.shown := by
  unfold Shown.replay at replays ⊢
  rw [tells.told, List.foldl_append, replays]
  exact tells.shown.foldl_see

theorem performAll_replays {operations : List Operation} (watched : session.Watched)
    (replays : Shown.replay session.told = session.shown)
    (keeps : ∀ operation ∈ operations, operation.keepsObserver = true) :
    Ends (performAll operations) session fun _ after =>
      after.Watched ∧ Shown.replay after.told = after.shown := by
  induction operations generalizing session with
  | nil => exact ends_pure ⟨watched, replays⟩
  | cons operation rest inductionHypothesis =>
    rw [List.forall_mem_cons] at keeps
    unfold performAll
    apply ends_bind
    intro answer between ended
    obtain ⟨⟨news, tells⟩, -⟩ := perform_tells watched keeps.1 answer between ended
    have sound := perform_ends watched.sound operation answer between ended
    apply ends_bind
    refine (inductionHypothesis (watched.tells tells sound) (tells.replays replays) keeps.2).mono ?_
    exact fun _ _ final => ends_pure final

/-- While one observer hears everything, what it was told replays to the program as it is, after
every operation. An operation tells what has changed, and nothing if it is refused; a removal is
told alone, once what was pending for the transaction has had its turn, and what is pending for it
then was registered meanwhile. -/
theorem observers_are_told_what_happens {config : Config} {source : LibrarySource}
    {files : Files.FileTree} {operations : List Operation} {answers : List Answer}
    {session : Session} (keeps : ∀ operation ∈ operations, operation.keepsObserver = true)
    (performed : performAll (.setObserver (some .attentive) :: operations)
      (new config source files) = .ok (answers, session)) :
    Shown.replay session.told = session.shown ∧
      ∀ (operation : Operation) (answer : Answer) (after : Session),
        operation.keepsObserver = true → perform operation session = .ok (answer, after) →
        after.told = session.told ++ session.shown.changes after.shown ∧
        (session.Refuses operation answer → session.shown.changes after.shown = []) ∧
        ∀ transaction, .unloaded transaction ∈ session.shown.changes after.shown →
          session.shown.changes after.shown = [.unloaded transaction] ∧
            session.RetiresFirst transaction after := by
  have began : { new config source files with observer := some .attentive }.Watched :=
    ⟨(sound_new config source files).of_same rfl rfl rfl, rfl, List.nodup_nil⟩
  have ends : Ends (performAll (.setObserver (some .attentive) :: operations))
      (new config source files) fun _ after =>
        after.Watched ∧ Shown.replay after.told = after.shown := by
    unfold performAll
    apply ends_bind
    apply ends_map
    apply ends_modify
    apply ends_bind
    exact (performAll_replays began rfl keeps).mono fun _ _ final => ends_pure final
  obtain ⟨watched, replays⟩ := ends answers session performed
  refine ⟨replays, fun operation answer after keeps ended => ?_⟩
  obtain ⟨⟨news, tells⟩, unchanged⟩ := perform_tells watched keeps answer after ended
  have sound := perform_ends watched.sound operation answer after ended
  rw [tells.shown.changes_eq watched.distinct (watched.tells tells sound).distinct]
  refine ⟨tells.told, fun refuses => ?_, tells.retired⟩
  have quiet := (Shown.Tells.quiet session.shown).changes_eq watched.distinct watched.distinct
  rw [← tells.shown.changes_eq watched.distinct (watched.tells tells sound).distinct,
    unchanged refuses, quiet]

/-- A shared object that stands in a search directory, which is all that the system opens. -/
def searchedLibrary : LibrarySource :=
  .sharedObjects fun name => if name = "/lib/libm.so" then some ⟨[("half", none)]⟩ else none

/-- A function registers itself with one less. Its transaction is unloaded, and that is told while
an action of the transaction is still to be run. A library is told of under its canonical name,
whatever it was asked for under. -/
theorem a_removal_is_told_before_the_last_action :
    let operations := [.loadLibrary "m" false, .submit .declare
        "int f(int n) \x7b if (n > 0) \x7b atexit(f, n - 1); \x7d return 0; \x7d",
      .submit .evaluate "atexit(f, 1)"]
    let files := Files.FileTree.add [] "/lib/libm.so" (.file .empty)
    let start := new { librarySearchPaths := ["/lib"] } searchedLibrary files
    ∃ answers session closed after final,
      (∀ operation ∈ operations, operation.keepsObserver = true) ∧
      performAll (.setObserver (some .attentive) :: operations) start = .ok (answers, session) ∧
      Shown.replay session.told = session.shown ∧
      perform (.unloadLibrary "m") session = .ok (.unloading .unloaded, closed) ∧
      closed.told.map Notification.render =
        ["open /lib/libm.so", "commit #0", "commit #1", "close /lib/libm.so"] ∧
      closed.told = session.told ++ session.shown.changes closed.shown ∧
      perform (.unload ⟨1⟩) session = .ok (.unloading .unloaded, after) ∧
      after.told.map Notification.render =
        ["open /lib/libm.so", "commit #0", "commit #1", "unload #1"] ∧
      (∃ transaction, session.shown.changes after.shown = [.unloaded transaction] ∧
        session.RetiresFirst transaction after) ∧
      after.engine.host.atExit.pendingFor (.transaction ⟨1⟩) = 1 ∧
      perform .runStaticDestructors after = .ok (.count 1, final) := by
  intro operations files start
  have keeps : ∀ operation ∈ operations, operation.keepsObserver = true := by
    unfold operations
    simp [Operation.keepsObserver]
  have facts :
      ((performAll (.setObserver (some .attentive) :: operations) start).toOption.bind fun result =>
        (perform (.unloadLibrary "m") result.2).toOption.bind fun closing =>
          (perform (.unload ⟨1⟩) result.2).toOption.bind fun unloading =>
            (perform .runStaticDestructors unloading.2).toOption.bind fun destructing =>
              (result.2.log.get? ⟨1⟩).map fun transaction =>
                decide (closing.1 = .unloading .unloaded ∧
                  closing.2.told.map Notification.render =
                    ["open /lib/libm.so", "commit #0", "commit #1", "close /lib/libm.so"] ∧
                  unloading.1 = .unloading .unloaded ∧
                  unloading.2.told.map Notification.render =
                    ["open /lib/libm.so", "commit #0", "commit #1", "unload #1"] ∧
                  .unloaded transaction ∈ result.2.shown.changes unloading.2.shown ∧
                  unloading.2.engine.host.atExit.pendingFor (.transaction ⟨1⟩) = 1 ∧
                  destructing.1 = .count 1)) = some true := by decide +kernel
  obtain ⟨⟨answers, session⟩, performed, facts⟩ := Option.bind_eq_some_iff.mp facts
  obtain ⟨⟨_, closed⟩, closes, facts⟩ := Option.bind_eq_some_iff.mp facts
  obtain ⟨⟨_, after⟩, unloads, facts⟩ := Option.bind_eq_some_iff.mp facts
  obtain ⟨⟨_, final⟩, destructs, facts⟩ := Option.bind_eq_some_iff.mp facts
  obtain ⟨transaction, -, facts⟩ := Option.map_eq_some_iff.mp facts
  obtain ⟨rfl, toldClosed, rfl, told, removal, pending, rfl⟩ := of_decide_eq_true facts
  have performed := ok_of_toOption performed
  have closes := ok_of_toOption closes
  have unloads := ok_of_toOption unloads
  obtain ⟨replays, tells⟩ := observers_are_told_what_happens keeps performed
  obtain ⟨tellsClosing, -, -⟩ := tells _ _ _ rfl closes
  obtain ⟨-, -, removed⟩ := tells _ _ _ rfl unloads
  exact ⟨answers, session, closed, after, final, keeps, performed, replays, closes, toldClosed,
    tellsClosing, unloads, told, ⟨transaction, removed transaction removal⟩, pending,
    ok_of_toOption destructs⟩

end Session

end IncrementalC
