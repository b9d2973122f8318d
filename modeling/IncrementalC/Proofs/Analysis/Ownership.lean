import IncrementalC.Proofs.Analysis.Definition

/-!
Contract: no name is defined by two transactions.

A variable is declared only while nothing live has its name, and a function gets a body only
while no live record of its name knows of one. Prototypes repeat what is known, so that a
definition is never hidden behind a newer record that has lost it.

Owns:
- who defines a name, by the live records;
- that analyses without errors define in their code what the owner defines by its records,
  each name once, and keep others from defining it.

Does not own: what becomes of the code.
-/

namespace IncrementalC

open DeclarationTable (liveNamed shown hidden)

/-- The record is of a variable, or of a function whose body its own transaction holds. -/
def DeclarationRecord.Defines (record : DeclarationRecord) : Prop :=
  record.kind = .variable ∨ record.kind.definition? = some record.owner

namespace DeclarationTable

variable {records others : List DeclarationRecord} {record : DeclarationRecord}
  {owner other : TransactionId} {name : String}

/-- By a live record the transaction defines the name. -/
def OwnedBy (records : List DeclarationRecord) (owner : TransactionId) (name : String) : Prop :=
  ∃ record ∈ liveNamed records name, record.owner = owner ∧ record.Defines

/-- No two transactions define one name. -/
def SoleOwners (records : List DeclarationRecord) : Prop :=
  ∀ name first second, OwnedBy records first name → OwnedBy records second name → first = second

theorem soleOwners_nil : SoleOwners [] := by
  rintro name first second ⟨record, absent, -⟩
  exact absurd absent List.not_mem_nil

theorem ownedBy_append_iff : OwnedBy (records ++ others) owner name ↔
    OwnedBy records owner name ∨ OwnedBy others owner name := by
  simp only [OwnedBy, liveNamed_append, List.mem_append, or_and_right, exists_or]

theorem not_ownedBy_forgotten (forgotten : ∀ record ∈ records, record.isLive = false) :
    ¬ OwnedBy records owner name := by
  rintro ⟨record, member, -⟩
  rw [liveNamed_eq_nil forgotten] at member
  exact List.not_mem_nil member

theorem ownedBy_shown (records : List DeclarationRecord) (transaction : TransactionId) :
    OwnedBy (records.map (shown transaction)) owner name ↔ OwnedBy records owner name := by
  unfold OwnedBy DeclarationRecord.Defines
  rw [liveNamed_map (name_shown transaction) (isLive_shown transaction)]
  simp only [List.mem_map, exists_exists_and_eq_and, kind_shown, owner_shown]

theorem ownedBy_hidden (records : List DeclarationRecord) (transaction : TransactionId) :
    OwnedBy (records.map (hidden transaction)) owner name ↔
      owner ≠ transaction ∧ OwnedBy records owner name := by
  unfold OwnedBy
  rw [liveNamed_hidden]
  constructor
  · rintro ⟨record, member, rfl, defines⟩
    obtain ⟨live, foreign⟩ := List.mem_filter.mp member
    exact ⟨of_decide_eq_true foreign, record, live, rfl, defines⟩
  · rintro ⟨foreign, record, live, rfl, defines⟩
    exact ⟨record, List.mem_filter.mpr ⟨live, decide_eq_true foreign⟩, rfl, defines⟩

/-- Where fewer names are owned, none gets a second owner. -/
theorem SoleOwners.of_imp (sole : SoleOwners records)
    (fewer : ∀ owner name, OwnedBy others owner name → OwnedBy records owner name) :
    SoleOwners others :=
  fun name first second left right => sole name first second (fewer _ _ left) (fewer _ _ right)

theorem eq_of_ownedBy_singleton (owned : OwnedBy [record] owner name) :
    record.name = name ∧ record.owner = owner ∧ record.Defines := by
  obtain ⟨other, member, rfl, defines⟩ := owned
  obtain ⟨same, rfl, -⟩ := mem_liveNamed_iff.mp member
  obtain rfl := List.mem_singleton.mp same
  exact ⟨rfl, rfl, defines⟩

/-- A record that defines its name may be added if nobody else does. -/
theorem SoleOwners.append_record (sole : SoleOwners records)
    (free : record.Defines → ∀ other, OwnedBy records other record.name → other = record.owner) :
    SoleOwners (records ++ [record]) := by
  intro name first second left right
  rw [ownedBy_append_iff] at left right
  rcases left with oldFirst | newFirst
  · rcases right with oldSecond | newSecond
    · exact sole name first second oldFirst oldSecond
    · obtain ⟨rfl, rfl, defines⟩ := eq_of_ownedBy_singleton newSecond
      exact free defines first oldFirst
  · obtain ⟨rfl, rfl, defines⟩ := eq_of_ownedBy_singleton newFirst
    rcases right with oldSecond | newSecond
    · exact (free defines second oldSecond).symm
    · exact (eq_of_ownedBy_singleton newSecond).2.1

end DeclarationTable

namespace Analysis

open DeclarationTable (OwnedBy SoleOwners)
open Syntax (Item)

variable {owner : TransactionId} {analysis after : Analysis} {item : Item}
  {holds : TransactionId → String → Prop} {name : String} {arity : Nat}
  {stated : Option ReturnKind} {earlier : Option EarlierFunction}

/-- Nobody defines a name that nothing live has. -/
theorem not_ownedBy_of_lookup (wellFormed : analysis.table.WellFormed)
    (unknown : analysis.table.lookup name = none) (other : TransactionId) :
    ¬ OwnedBy analysis.table.records other name := by
  rintro ⟨record, live, -⟩
  obtain ⟨newest, found⟩ := wellFormed.exists_lookup live
  rw [unknown] at found
  cases found

/-- Nobody defines the name of a function that may get a body. -/
theorem Orderly.not_ownedBy (orderly : Orderly holds owner analysis)
    (continued : earlierFunction analysis.table name arity stated true = .ok earlier)
    (other : TransactionId) : ¬ OwnedBy analysis.table.records other name := by
  rintro ⟨record, live, rfl, defines⟩
  obtain ⟨newest, found⟩ := orderly.wellFormed.exists_lookup live
  obtain ⟨returns, definition, kind, -, -, undefined⟩ := earlierFunction_eq_ok continued found
  have unknown : newest.kind.definition? = none := by
    rw [kind, undefined rfl]
    rfl
  -- What the record knows the newest one knows, too, and that knows of no body.
  rcases orderly.attributed.agrees_newest orderly.wellFormed live found with rfl | agrees
  · rcases defines with isVariable | known
    · cases kind.symm.trans isVariable
    · cases unknown.symm.trans known
  · rcases defines with isVariable | known
    · have signature := agrees.signature
      rw [kind, isVariable] at signature
      cases signature
    · cases unknown.symm.trans (agrees.definition _ known)

/-- A prototype that knows its own transaction for the body follows the definition there. -/
theorem Orderly.ownedBy_of_repeated (orderly : Orderly holds owner analysis)
    (continued : earlierFunction analysis.table name arity stated false = .ok earlier)
    (known : earlier.bind EarlierFunction.definition = some owner) :
    OwnedBy analysis.table.records owner name := by
  cases found : analysis.table.lookup name with
  | none =>
    rw [earlierFunction_of_none found] at continued
    obtain rfl := Except.ok.inj continued
    cases known
  | some newest =>
    obtain ⟨returns, definition, kind, rfl, -⟩ := earlierFunction_eq_ok continued found
    obtain rfl : definition = some owner := known
    have live := orderly.wellFormed.mem_liveNamed_of_lookup found
    have defined : newest.kind.definition? = some owner := by
      rw [kind]
      rfl
    have above := (orderly.attributed.origin name newest live owner defined).1
    have below := orderly.earlier newest (List.mem_of_mem_filter live)
    have own : newest.owner = owner := congrArg TransactionId.mk (Nat.le_antisymm below above)
    exact ⟨newest, live, own, .inr (own ▸ defined)⟩

/-- No name has two owners, and the code so far defines names of the owner, each once. -/
structure Coded (owner : TransactionId) (analysis : Analysis) : Prop where
  sole : SoleOwners analysis.table.records
  distinct : analysis.unit.definedNames.Nodup
  owned : ∀ name ∈ analysis.unit.definedNames, OwnedBy analysis.table.records owner name

/-- Code for a name that nobody owns may be added along with a record that defines it. -/
theorem Coded.define (coded : Coded owner analysis) {record : DeclarationRecord}
    (records : after.table.records = analysis.table.records ++ [record])
    (names : after.unit.definedNames.Perm (record.name :: analysis.unit.definedNames))
    (own : record.owner = owner) (live : record.isLive = true) (defines : record.Defines)
    (free : ∀ other, ¬ OwnedBy analysis.table.records other record.name) : Coded owner after where
  sole := by
    rw [records]
    exact coded.sole.append_record fun _ other owned => absurd owned (free other)
  distinct := by
    rw [names.nodup_iff, List.nodup_cons]
    exact ⟨fun old => free owner (coded.owned _ old), coded.distinct⟩
  owned name member := by
    rw [records, DeclarationTable.ownedBy_append_iff]
    rcases List.mem_cons.mp (names.mem_iff.mp member) with rfl | old
    · exact .inr ⟨record, DeclarationTable.mem_liveNamed_iff.mpr
        ⟨List.mem_singleton_self record, rfl, live⟩, own, defines⟩
    · exact .inl (coded.owned name old)

theorem Coded.accepts (coded : Coded owner analysis) (orderly : Orderly holds owner analysis)
    {record : DeclarationRecord} (accepts : Accepts owner analysis item after record) :
    Coded owner after := by
  obtain ⟨records, -, declares⟩ := accepts
  generalize coding : after.unit = unit at declares
  cases declares with
  | @global name initial span constant initializers unknown =>
    have free := not_ownedBy_of_lookup orderly.wellFormed unknown
    refine coded.define records ?_ rfl rfl (.inl rfl) free
    rw [coding]
    simp only [CodeUnit.definedNames, List.map_append, List.map_cons, List.map_nil,
      List.append_assoc, List.singleton_append]
    exact List.perm_middle
  | @definition type name parameters body isExternal span earlier returns function continued
      states deduces named =>
    refine coded.define records ?_ rfl rfl (.inr rfl) (orderly.not_ownedBy continued)
    rw [coding]
    simp only [CodeUnit.definedNames, List.map_append, List.map_cons, List.map_nil, named,
      ← List.append_assoc]
    exact List.perm_append_singleton _ _
  | @prototype type name parameters isExternal span earlier returns continued states =>
    constructor
    · rw [records]
      refine coded.sole.append_record ?_
      rintro (isVariable | known) other owned
      · cases isVariable
      · exact coded.sole name other owner owned (orderly.ownedBy_of_repeated continued known)
    · rw [coding]
      exact coded.distinct
    · rw [coding, records]
      exact fun name member =>
        DeclarationTable.ownedBy_append_iff.mpr (.inl (coded.owned name member))

/-- An analysis without errors gives code to names of its owner, each once, and leaves no name
with two owners. -/
theorem Coded.analyze {items : List Item} {table : DeclarationTable}
    (sole : SoleOwners table.records)
    (orderly : Orderly (fun _ _ => True) owner (.start table owner))
    (errorless : (IncrementalC.analyze items table owner).hasErrors = false) :
    Coded owner (IncrementalC.analyze items table owner) := by
  let kept := fun analysis => Coded owner analysis ∧ Orderly (fun _ _ => True) owner analysis
  have started : kept (.start table owner) :=
    ⟨⟨sole, List.nodup_nil, fun _ absent => absurd absent List.not_mem_nil⟩, orderly⟩
  refine (foldl_checkItem_keeps items started ?_ errorless).1
  rintro before ⟨coded, orderly⟩ item - fine
  obtain ⟨record, accepts⟩ := checkItem_accepts fine
  exact ⟨coded.accepts orderly accepts, orderly.checkItem (fun _ _ => trivial) fine⟩

end Analysis

end IncrementalC
