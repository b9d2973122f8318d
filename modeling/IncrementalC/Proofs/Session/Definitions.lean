import IncrementalC.Proofs.Session.Agreement

/-!
Contract: where the table says that bodies are, and what that means for new definitions.

A record that knows of a body goes on knowing of it when the transaction that holds the
body is gone. Prototypes that were declared after the body copied it, so that a new
definition is refused as long as one of them is left.

Owns: what live records say of bodies, and when a body that is gone stands in the way of a
new one.

Does not own: the check of the new body itself.
-/

namespace IncrementalC

open DeclarationTable (liveNamed mem_liveNamed_iff)

/-- A declaration of the function that came after the record is live. -/
def DeclarationTable.Outlives (table : DeclarationTable) (body : DeclarationRecord) : Prop :=
  ∃ record ∈ table.records, record.isLive = true ∧ record.name = body.name ∧
    body.id.number < record.id.number

/-! ## Records without the body -/

namespace Attributed

variable {table : DeclarationTable} {holds : TransactionId → String → Prop}
  {id : TransactionId} {body : DeclarationRecord} {arity : Nat} {returns : ReturnKind}

/-- Without the transaction of a body, the newest record of the name has its signature. It
knows of the body that is gone if it came after it, and of none else. -/
theorem lookup_forget (attributed : Attributed table.records holds)
    (wellFormed : table.WellFormed) (member : body ∈ table.records) (live : body.isLive = true)
    (own : body.owner = id) (kind : body.kind = .function arity returns (some id))
    {newest : DeclarationRecord} (found : (table.forget id).2.lookup body.name = some newest) :
    newest.kind = .function arity returns
      (if body.id.number < newest.id.number then some id else none) := by
  have listed := (wellFormed.forget id).mem_liveNamed_of_lookup found
  rw [DeclarationTable.forget_records, DeclarationTable.liveNamed_hidden] at listed
  obtain ⟨newestMember, foreign⟩ := List.mem_filter.mp listed
  have differs : newest.owner ≠ id := of_decide_eq_true foreign
  have bodyMember : body ∈ liveNamed table.records body.name :=
    mem_liveNamed_iff.mpr ⟨member, rfl, live⟩
  have known : body.kind.definition? = some id := by
    rw [kind]
    rfl
  have signature : body.kind.signature? = some (arity, returns) := by
    rw [kind]
    rfl
  by_cases after : body.id.number < newest.id.number
  · have agrees := attributed.agrees_of_lt wellFormed bodyMember newestMember after
    rw [if_pos after]
    exact DeclarationKind.eq_function (agrees.signature.trans signature)
      (agrees.definition id known)
  · have numbers : newest.id.number ≠ body.id.number := by
      intro same
      have one := wellFormed.eq_of_id_eq (List.mem_of_mem_filter newestMember) member
        (congrArg DeclarationId.mk same)
      exact differs (one ▸ own)
    have agrees := attributed.agrees_of_lt wellFormed newestMember bodyMember (by omega)
    rw [if_neg after]
    refine DeclarationKind.eq_function (agrees.signature.symm.trans signature) ?_
    cases told : newest.kind.definition? with
    | none => rfl
    | some other =>
      -- An older record that knew of the body would be of its transaction.
      have same := agrees.definition other told
      rw [known] at same
      obtain rfl := Option.some.inj same
      exact absurd (agrees.own id told own) differs

end Attributed

/-- A declaration outlives the record exactly if the newest one does. -/
theorem DeclarationTable.WellFormed.outlives_iff {table : DeclarationTable}
    (wellFormed : table.WellFormed) (body : DeclarationRecord) :
    table.Outlives body ↔ ∃ newest, table.lookup body.name = some newest ∧
      body.id.number < newest.id.number := by
  constructor
  · rintro ⟨record, member, live, named, after⟩
    have listed := mem_liveNamed_iff.mpr ⟨member, named, live⟩
    obtain ⟨newest, found⟩ := wellFormed.exists_lookup listed
    refine ⟨newest, found, ?_⟩
    rcases wellFormed.eq_or_lt_of_lookup listed found with rfl | later
    · exact after
    · exact Nat.lt_trans after later
  · rintro ⟨newest, found, after⟩
    obtain ⟨member, named, live⟩ :=
      mem_liveNamed_iff.mp (wellFormed.mem_liveNamed_of_lookup found)
    exact ⟨newest, member, live, named, after⟩

/-! ## New definitions -/

/-- A function with this type and these parameters has the signature of the record. -/
def DeclarationRecord.HasSignature (record : DeclarationRecord) (type : Syntax.TypeName)
    (parameters : List Syntax.Parameter) : Prop :=
  ∃ returns definition, record.kind = .function parameters.length returns definition ∧
    ∀ stated ∈ Analysis.statedReturn type, stated = returns

namespace Analysis

open Syntax (Statement Parameter TypeName)

variable {analysis : Analysis} {name : String} {parameters : List Parameter} {type : TypeName}
  {newest : DeclarationRecord} {returns : ReturnKind}

/-- A definition is refused if the newest record has its signature and knows of a body. -/
theorem checkFunction_of_defined {holder : TransactionId}
    (found : analysis.table.lookup name = some newest)
    (kind : newest.kind = .function parameters.length returns (some holder))
    (stated : ∀ kind ∈ statedReturn type, kind = returns) (owner : TransactionId)
    (statements : List Statement) (span : Span) :
    analysis.checkFunction owner type name parameters (some statements) span =
      analysis.report (.redefinition name) span := by
  have refused := earlierFunction_of_function found kind stated true
  have hasBody : ¬(type = TypeName.auto ∧ (some statements).isNone) := by simp
  unfold checkFunction
  rw [if_neg hasBody]
  dsimp only [Option.isSome_some] at refused ⊢
  rw [refused]
  rfl

/-- A definition is recorded with its own transaction if the newest record has its signature
and knows of no body, or if there is no record. -/
theorem checkFunction_of_undefined
    (undefined : ∀ newest ∈ analysis.table.lookup name, ∃ returns,
      newest.kind = .function parameters.length returns none ∧
        ∀ kind ∈ statedReturn type, kind = returns) (owner : TransactionId)
    (statements : List Statement) (span : Span) :
    ∃ returned,
      (analysis.checkFunction owner type name parameters (some statements) span).table.records =
        analysis.table.records ++ [⟨⟨analysis.table.records.length⟩, name,
          .function parameters.length returned (some owner), owner, .pending, span⟩] ∧
      ∀ kind ∈ statedReturn type, returned = kind := by
  obtain ⟨earlier, continued⟩ : ∃ earlier, earlierFunction analysis.table name parameters.length
      (statedReturn type) true = .ok earlier := by
    cases found : analysis.table.lookup name with
    | none => exact ⟨none, earlierFunction_of_none found _ _ _⟩
    | some newest =>
      obtain ⟨returns, kind, stated⟩ := undefined newest found
      exact ⟨_, earlierFunction_of_function found kind stated true⟩
  have hasBody : ¬(type = TypeName.auto ∧ (some statements).isNone) := by simp
  obtain ⟨returned, records, states, -⟩ :=
    defineFunction_records analysis owner earlier type name parameters statements span
  refine ⟨returned, ?_, states⟩
  unfold checkFunction
  rw [if_neg hasBody]
  dsimp only [Option.isSome_some]
  rw [continued]
  exact records

end Analysis

/-! ## After a removal -/

namespace Attributed

open Syntax (Statement Parameter TypeName)

variable {table : DeclarationTable} {holds : TransactionId → String → Prop} {id : TransactionId}
  {body : DeclarationRecord} {type : TypeName} {parameters : List Parameter} {analysis : Analysis}

/-- Without the transaction of a body, a definition with its signature is refused if a later
declaration is left, and recorded with its own transaction otherwise. -/
theorem checkFunction_forget (attributed : Attributed table.records holds)
    (wellFormed : table.WellFormed) (member : body ∈ table.records) (live : body.isLive = true)
    (own : body.owner = id) (known : body.kind.definition? = some id)
    (without : analysis.table = (table.forget id).2) (signature : body.HasSignature type parameters)
    (owner : TransactionId) (statements : List Statement) (span : Span) :
    (analysis.table.Outlives body →
      analysis.checkFunction owner type body.name parameters (some statements) span =
        analysis.report (.redefinition body.name) span) ∧
    (¬ analysis.table.Outlives body → ∃ returned,
      (analysis.checkFunction owner type body.name parameters (some statements)
        span).table.records = analysis.table.records ++ [⟨⟨analysis.table.records.length⟩,
          body.name, .function parameters.length returned (some owner), owner, .pending, span⟩] ∧
      ∀ stated ∈ Analysis.statedReturn type, returned = stated) := by
  obtain ⟨returns, definition, kind, stated⟩ := signature
  obtain rfl : definition = some id := by
    rw [kind] at known
    exact known
  have newestKind : ∀ newest, analysis.table.lookup body.name = some newest →
      newest.kind = .function parameters.length returns
        (if body.id.number < newest.id.number then some id else none) := by
    intro newest found
    rw [without] at found
    exact attributed.lookup_forget wellFormed member live own kind found
  have left := wellFormed.forget id
  rw [← without] at left
  rw [left.outlives_iff]
  constructor
  · rintro ⟨newest, found, later⟩
    have kindOfNewest := newestKind newest found
    rw [if_pos later] at kindOfNewest
    exact Analysis.checkFunction_of_defined found kindOfNewest stated owner statements span
  · intro alone
    apply Analysis.checkFunction_of_undefined
    intro newest found
    have kindOfNewest := newestKind newest found
    rw [if_neg fun later => alone ⟨newest, found, later⟩] at kindOfNewest
    exact ⟨returns, kindOfNewest, stated⟩

end Attributed

/-- A body that a live record knows of is in a logged text, or in an earlier transaction that
is gone. -/
theorem Compiler.Sound.definition_cases {compiler : Compiler} {log : TransactionLog}
    (sound : compiler.Sound log) {record : DeclarationRecord}
    (member : record ∈ compiler.checker.table.records) (live : record.isLive = true)
    {holder : TransactionId} (known : holder ∈ record.kind.definition?) :
    (∃ transaction, log.get? holder = some transaction ∧ transaction.Defines record.name) ∨
      log.get? holder = none ∧ holder.number < record.owner.number := by
  have listed := mem_liveNamed_iff.mpr ⟨member, rfl, live⟩
  obtain ⟨notLater, holds⟩ := sound.attributed.origin record.name record listed holder known
  cases logged : log.get? holder with
  | some transaction => exact .inl ⟨transaction, rfl, holds transaction logged⟩
  | none =>
    refine .inr ⟨rfl, Nat.lt_of_le_of_ne notLater ?_⟩
    -- The record is live, so its own transaction is logged.
    intro same
    obtain rfl : holder = record.owner := congrArg TransactionId.mk same
    rw [sound.accounted.isLive_eq member] at live
    unfold TransactionLog.contains at live
    rw [logged] at live
    cases live

namespace Session

open Syntax (Statement Parameter TypeName)

theorem notify_compiler (session : Session) (notification : Notification) :
    (session.notify notification).compiler = session.compiler := by
  unfold Session.notify
  split
  · rfl
  · split <;> rfl

/-- Unloading a transaction forgets its records. -/
theorem unloadTransaction_forgets (session : Session) (id : TransactionId) :
    Ends (unloadTransaction id) session fun unloading after => unloading = .unloaded →
      after.compiler.checker.table = (session.compiler.checker.table.forget id).2 := by
  unfold unloadTransaction
  apply ends_get_bind
  cases logged : session.log.contains id with
  | false => exact ends_pure nofun
  | true =>
    obtain ⟨transaction, found⟩ := Option.isSome_iff_exists.mp logged
    have removed : (session.compiler.unload session.log id).2.1.checker.table =
        (session.compiler.checker.table.forget id).2 := by
      unfold Compiler.unload
      rw [found]
      rfl
    rw [if_pos rfl]
    apply ends_bind
    apply ends_withEngine
    intro dependents engine _
    split
    · exact ends_pure nofun
    · unfold removeTransaction
      apply ends_bind
      apply ends_withEngine
      intro count engine _
      apply ends_bind
      apply ends_modify
      apply ends_pure
      intro _
      dsimp only
      split
      · exact removed
      · rw [notify_compiler]
        exact removed

theorem perform_unload_forgets {session after : Session} {id : TransactionId}
    (unloaded : perform (.unload id) session = .ok (.unloading .unloaded, after)) :
    after.compiler.checker.table = (session.compiler.checker.table.forget id).2 := by
  have ends : Ends (perform (.unload id)) session fun answer after =>
      answer = .unloading .unloaded →
        after.compiler.checker.table = (session.compiler.checker.table.forget id).2 := by
    apply ends_map
    refine (unloadTransaction_forgets session id).mono ?_
    intro unloading after forgets same
    exact forgets (Answer.unloading.inj same)
  exact ends _ _ unloaded rfl

/-- A live record knows of a body in a logged transaction, whose text defines the function, or
of a body in an earlier transaction that is gone.

When the transaction of a body is unloaded, a new definition with the signature of the body is
refused if declarations of the function that came after the body are left. Without them it is
recorded with its own body. -/
theorem later_declarations_keep_bodies_that_are_gone {config : Config} {source : LibrarySource}
    {files : Files.FileTree} {operations : List Operation} {answers : List Answer}
    {session : Session}
    (performed : performAll operations (new config source files) = .ok (answers, session)) :
    (∀ record ∈ session.compiler.checker.table.records, record.isLive = true →
      ∀ holder ∈ record.kind.definition?,
        (∃ transaction, session.log.get? holder = some transaction ∧
          transaction.Defines record.name) ∨
        session.log.get? holder = none ∧ holder.number < record.owner.number) ∧
    ∀ id after, perform (.unload id) session = .ok (.unloading .unloaded, after) →
      ∀ body ∈ session.compiler.checker.table.records, body.isLive = true → body.owner = id →
        body.kind.definition? = some id →
        ∀ (analysis : Analysis) (owner : TransactionId) (type : TypeName)
          (parameters : List Parameter) (statements : List Statement) (span : Span),
          analysis.table = after.compiler.checker.table → body.HasSignature type parameters →
          (after.compiler.checker.table.Outlives body →
            analysis.checkFunction owner type body.name parameters (some statements) span =
              analysis.report (.redefinition body.name) span) ∧
          (¬ after.compiler.checker.table.Outlives body → ∃ returned,
            (analysis.checkFunction owner type body.name parameters (some statements)
              span).table.records = analysis.table.records ++ [⟨⟨analysis.table.records.length⟩,
                body.name, .function parameters.length returned (some owner), owner, .pending,
                span⟩] ∧
            ∀ stated ∈ Analysis.statedReturn type, returned = stated) := by
  have sound := performAll_ends operations (sound_new config source files) answers session performed
  constructor
  · intro record member live holder known
    exact sound.compiler.definition_cases member live known
  · intro id after unloaded body member live own known analysis owner type parameters statements
      span same signature
    have without := same.trans (perform_unload_forgets unloaded)
    rw [← same]
    exact sound.compiler.attributed.checkFunction_forget sound.compiler.checker.table member live
      own known without signature owner statements span

/-- A prototype repeats a definition, whose transaction is then unloaded. The prototype keeps
the body, and another definition of the function is refused. -/
theorem a_prototype_keeps_a_body_that_is_gone :
    ∃ answers session after last body prototype,
      performAll [.submit .declare "int f() { return 1; }", .submit .declare "int f();"]
        (new .standard .sharedObjects []) = .ok (answers, session) ∧
      perform (.unload ⟨0⟩) session = .ok (.unloading .unloaded, after) ∧
      body ∈ session.compiler.checker.table.records ∧ body.isLive = true ∧ body.owner = ⟨0⟩ ∧
      body.kind.definition? = some ⟨0⟩ ∧
      prototype ∈ after.compiler.checker.table.records ∧ prototype.isLive = true ∧
      prototype.kind.definition? = some ⟨0⟩ ∧ after.log.get? ⟨0⟩ = none ∧
      (∀ owner statements span,
        let analysis := Analysis.start after.compiler.checker.table owner
        analysis.checkFunction owner .int "f" [] (some statements) span =
          analysis.report (.redefinition "f") span) ∧
      perform (.submit .declare "int f() { return 2; }") after = .ok (.outcome
        { verdict := .failure, transaction := some ⟨2⟩,
          diagnostics :=
            [(Analysis.Problem.redefinition "f").reportAt ⟨⟨1, 1, 0⟩, ⟨1, 10, 9⟩⟩] }, last) := by
  let operations : List Operation :=
    [.submit .declare "int f() { return 1; }", .submit .declare "int f();"]
  let refused : Outcome :=
    { verdict := .failure, transaction := some ⟨2⟩,
      diagnostics := [(Analysis.Problem.redefinition "f").reportAt ⟨⟨1, 1, 0⟩, ⟨1, 10, 9⟩⟩] }
  have facts :
      ((performAll operations (new .standard .sharedObjects [])).toOption.bind fun result =>
        (perform (.unload ⟨0⟩) result.2).toOption.bind fun removal =>
          (perform (.submit .declare "int f() { return 2; }") removal.2).toOption.bind fun last =>
            result.2.compiler.checker.table.records.head?.bind fun body =>
              removal.2.compiler.checker.table.records.getLast?.map fun prototype =>
                decide (removal.1 = .unloading .unloaded ∧ last.1 = .outcome refused ∧
                  body.name = "f" ∧ body.isLive = true ∧ body.owner = ⟨0⟩ ∧
                  body.kind = .function 0 .int (some ⟨0⟩) ∧
                  prototype.name = "f" ∧ prototype.isLive = true ∧
                  prototype.kind.definition? = some ⟨0⟩ ∧
                  body.id.number < prototype.id.number ∧ removal.2.log.get? ⟨0⟩ = none)) =
        some true := by decide +kernel
  obtain ⟨⟨answers, session⟩, performed, facts⟩ := Option.bind_eq_some_iff.mp facts
  obtain ⟨⟨answer, after⟩, unloaded, facts⟩ := Option.bind_eq_some_iff.mp facts
  obtain ⟨⟨outcome, last⟩, submitted, facts⟩ := Option.bind_eq_some_iff.mp facts
  obtain ⟨body, first, facts⟩ := Option.bind_eq_some_iff.mp facts
  obtain ⟨prototype, newest, facts⟩ := Option.map_eq_some_iff.mp facts
  obtain ⟨rfl, rfl, named, live, own, kind, repeats, stays, keeps, later, gone⟩ :=
    of_decide_eq_true facts
  have performed := ok_of_toOption performed
  have unloaded := ok_of_toOption unloaded
  have submitted := ok_of_toOption submitted
  have bodyMember := List.mem_of_head? first
  have prototypeMember := List.mem_of_getLast? newest
  have known : body.kind.definition? = some ⟨0⟩ := by
    rw [kind]
    rfl
  have outlives : after.compiler.checker.table.Outlives body :=
    ⟨prototype, prototypeMember, stays, repeats.trans named.symm, later⟩
  have signature : body.HasSignature .int [] := ⟨.int, some ⟨0⟩, kind, by decide⟩
  refine ⟨answers, session, after, last, body, prototype, performed, unloaded, bodyMember, live,
    own, known, prototypeMember, stays, keeps, gone, ?_, submitted⟩
  intro owner statements span analysis
  have exactly := (later_declarations_keep_bodies_that_are_gone performed).2 ⟨0⟩ after unloaded
    body bodyMember live own known analysis owner .int [] statements span rfl signature
  rw [named] at exactly
  exact exactly.1 outlives

end Session

end IncrementalC
