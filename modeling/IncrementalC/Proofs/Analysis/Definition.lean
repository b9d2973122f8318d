import IncrementalC.Proofs.Analysis.Items

/-!
Contract: what the live records of a name agree on.

A definition is recorded with its own transaction. A prototype takes over what the newest
live record of the name says, and a second definition is refused. A signature that differs
from the earlier one is an error. So the live records of a name have one signature, and
once one of them knows of a body, all newer ones know of the same.

Owns: what an item adds to the records, and that analyses without errors, commits and
removals keep the records of a name in agreement.

Does not own: whether the transaction that holds a body is still logged.
-/

namespace IncrementalC

open DeclarationTable (liveNamed shown hidden)

/-- The item is a definition of the function. -/
def Syntax.Item.Defines (item : Syntax.Item) (name : String) : Prop :=
  ∃ returns parameters body isExternal span,
    item = .function returns name parameters (some body) isExternal span

/-- How many arguments a function takes and what it gives back; a variable does neither. -/
def DeclarationKind.signature? : DeclarationKind → Option (Nat × ReturnKind)
  | .variable => none
  | .function arity returns _ => some (arity, returns)

theorem DeclarationKind.eq_function {kind : DeclarationKind} {arity : Nat} {returns : ReturnKind}
    {definition : Option TransactionId} (signature : kind.signature? = some (arity, returns))
    (defined : kind.definition? = definition) : kind = .function arity returns definition := by
  cases kind with
  | «variable» => cases signature
  | function =>
    cases signature
    rw [← defined]
    rfl

/-- A newer live record of a name has the signature of an older one and knows of the body
that the older one knows of, which is not its own. -/
structure DeclarationRecord.Agrees (older newer : DeclarationRecord) : Prop where
  signature : newer.kind.signature? = older.kind.signature?
  definition : ∀ id ∈ older.kind.definition?, newer.kind.definition? = some id
  own : ∀ id ∈ older.kind.definition?, newer.owner = id → older.owner = id

/-- Live records attribute bodies to transactions that hold them, no later ones than their
own, and agree. `holds` says which transaction has a body for which name. -/
structure Attributed (records : List DeclarationRecord)
    (holds : TransactionId → String → Prop) : Prop where
  origin : ∀ name, ∀ record ∈ liveNamed records name, ∀ id ∈ record.kind.definition?,
    id.number ≤ record.owner.number ∧ holds id name
  agreed : ∀ name, (liveNamed records name).Pairwise DeclarationRecord.Agrees

theorem attributed_nil (holds : TransactionId → String → Prop) : Attributed [] holds where
  origin _ _ member := absurd member List.not_mem_nil
  agreed _ := .nil

namespace Attributed

variable {records after : List DeclarationRecord} {holds : TransactionId → String → Prop}

theorem mono (attributed : Attributed records holds) {other : TransactionId → String → Prop}
    (weakens : ∀ name, ∀ record ∈ liveNamed records name, ∀ id ∈ record.kind.definition?,
      holds id name → other id name) : Attributed records other where
  origin name record member id known :=
    ⟨(attributed.origin name record member id known).1,
      weakens name record member id known (attributed.origin name record member id known).2⟩
  agreed := attributed.agreed

/-- Committing shows pending records, and says nothing new. -/
theorem commit (attributed : Attributed records holds) (owner : TransactionId) :
    Attributed (records.map (shown owner)) holds := by
  have live := DeclarationTable.liveNamed_map (DeclarationTable.name_shown owner)
    (DeclarationTable.isLive_shown owner) records
  constructor
  · intro name record member
    rw [live] at member
    obtain ⟨original, originalMember, rfl⟩ := List.mem_map.mp member
    rw [DeclarationTable.kind_shown, DeclarationTable.owner_shown]
    exact attributed.origin name original originalMember
  · intro name
    rw [live, List.pairwise_map]
    apply (attributed.agreed name).imp
    intro older newer agrees
    constructor <;> simp only [DeclarationTable.kind_shown, DeclarationTable.owner_shown]
    · exact agrees.signature
    · exact agrees.definition
    · exact agrees.own

/-- Fewer live records agree as well. -/
theorem of_sublist (attributed : Attributed records holds)
    (fewer : ∀ name, (liveNamed after name).Sublist (liveNamed records name)) :
    Attributed after holds where
  origin name record member := attributed.origin name record ((fewer name).subset member)
  agreed name := (attributed.agreed name).sublist (fewer name)

theorem forget (attributed : Attributed records holds) (owner : TransactionId) :
    Attributed (records.map (hidden owner)) holds := by
  apply attributed.of_sublist
  intro name
  rw [DeclarationTable.liveNamed_hidden]
  exact List.filter_sublist

/-- Forgotten records say nothing. -/
theorem append_forgotten (attributed : Attributed records holds) {gap : List DeclarationRecord}
    (forgotten : ∀ record ∈ gap, record.isLive = false) : Attributed (records ++ gap) holds := by
  apply attributed.of_sublist
  intro name
  rw [DeclarationTable.liveNamed_append, DeclarationTable.liveNamed_eq_nil forgotten,
    List.append_nil]

end Attributed

/-! ## What an item adds -/

namespace Analysis

open Syntax (Expression Statement Item Parameter TypeName)

/-- What an item of `owner` adds to the records if it is no error: nothing, a first
definition, or a record that knows of the body that the newest one knows of. -/
inductive Adds (owner : TransactionId) (table : DeclarationTable) (item : Item) :
    List DeclarationRecord → Prop where
  | nothing : Adds owner table item []
  | defined {record : DeclarationRecord} (own : record.owner = owner)
      (signature : ∀ newest ∈ table.lookup record.name,
        record.kind.signature? = newest.kind.signature?)
      (definition : record.kind.definition? = some owner)
      (first : ∀ newest ∈ table.lookup record.name, newest.kind.definition? = none)
      (defines : item.Defines record.name) : Adds owner table item [record]
  | repeated {record : DeclarationRecord} (own : record.owner = owner)
      (signature : ∀ newest ∈ table.lookup record.name,
        record.kind.signature? = newest.kind.signature?)
      (definition : record.kind.definition? =
        (table.lookup record.name).bind fun newest => newest.kind.definition?) :
      Adds owner table item [record]

/-- The item adds to the records of the analysis what it may add. -/
def Extended (owner : TransactionId) (analysis : Analysis) (item : Item) (after : Analysis) :
    Prop :=
  ∃ added, after.table.records = analysis.table.records ++ added ∧
    Adds owner analysis.table item added

variable {owner : TransactionId}

theorem Declares.adds {analysis : Analysis} {item : Item} {record : DeclarationRecord}
    {unit : CodeUnit} (declares : Declares owner analysis item record unit) :
    Adds owner analysis.table item [record] := by
  cases declares with
  | global unknown =>
    refine .repeated rfl ?_ ?_ <;> rw [unknown]
    · nofun
    · rfl
  | @definition type _ _ _ _ _ _ returns _ continued states deduces =>
    refine .defined rfl ?_ rfl ?_ ⟨_, _, _, _, _, rfl⟩
    · intro newest found
      obtain ⟨earlierReturns, definition, kind, rfl, sameReturn, -⟩ :=
        earlierFunction_eq_ok continued found
      have same : returns = earlierReturns := by
        cases type? : statedReturn type with
        | none => exact (deduces type? _ rfl).symm
        | some stated => exact (states stated type?).trans (sameReturn stated type?)
      rw [kind, same]
      rfl
    · intro newest found
      obtain ⟨_, definition, kind, -, -, undefined⟩ := earlierFunction_eq_ok continued found
      rw [kind, undefined rfl]
      rfl
  | @prototype _ name _ _ _ _ _ continued states =>
    refine .repeated rfl ?_ ?_
    · intro newest found
      obtain ⟨returns, definition, kind, -, sameReturn, -⟩ := earlierFunction_eq_ok continued found
      rw [kind, DeclarationKind.signature?, sameReturn _ states]
      rfl
    · cases found : analysis.table.lookup name with
      | none =>
        rw [earlierFunction_of_none found] at continued
        obtain rfl := Except.ok.inj continued
        rfl
      | some newest =>
        obtain ⟨returns, definition, kind, rfl, -⟩ := earlierFunction_eq_ok continued found
        change definition = newest.kind.definition?
        rw [kind]
        rfl

theorem Accepts.extended {analysis after : Analysis} {item : Item} {record : DeclarationRecord}
    (accepts : Accepts owner analysis item after record) : Extended owner analysis item after :=
  ⟨[record], accepts.records, accepts.declares.adds⟩

end Analysis

/-! ## Analyses keep agreement -/

namespace Attributed

variable {table : DeclarationTable} {holds : TransactionId → String → Prop}
  {owner : TransactionId}

/-- Of two live records of a name the one with the smaller number is the older. -/
theorem agrees_of_lt (attributed : Attributed table.records holds) (wellFormed : table.WellFormed)
    {name : String} {older newer : DeclarationRecord}
    (olderMember : older ∈ liveNamed table.records name)
    (newerMember : newer ∈ liveNamed table.records name)
    (before : older.id.number < newer.id.number) : older.Agrees newer := by
  have forwards : (liveNamed table.records name).Pairwise fun first second =>
      first.id.number < second.id.number → first.Agrees second := by
    apply (attributed.agreed name).imp
    exact fun agrees _ => agrees
  have backwards : (liveNamed table.records name).Pairwise fun first second =>
      second.id.number < first.id.number → second.Agrees first := by
    apply (wellFormed.ascending_liveNamed name).imp
    exact fun inOrder reversed => absurd reversed (Nat.lt_asymm inOrder)
  exact List.Pairwise.forall_of_forall_of_flip (fun _ _ less => absurd less (Nat.lt_irrefl _))
    forwards backwards olderMember newerMember before

/-- Older live records of a name agree with the newest one, or are it. -/
theorem agrees_newest (attributed : Attributed table.records holds)
    (wellFormed : table.WellFormed) {name : String} {older newest : DeclarationRecord}
    (member : older ∈ liveNamed table.records name) (found : table.lookup name = some newest) :
    older = newest ∨ older.Agrees newest :=
  (wellFormed.eq_or_lt_of_lookup member found).imp_right
    (attributed.agrees_of_lt wellFormed member (wellFormed.mem_liveNamed_of_lookup found))

/-- One more record of a name agrees with the older ones. -/
theorem append_record (attributed : Attributed table.records holds) {record : DeclarationRecord}
    (origin : ∀ id ∈ record.kind.definition?,
      id.number ≤ record.owner.number ∧ holds id record.name)
    (agreed : ∀ older ∈ liveNamed table.records record.name, older.Agrees record) :
    Attributed (table.records ++ [record]) holds where
  origin name other member := by
    rw [DeclarationTable.liveNamed_append] at member
    rcases List.mem_append.mp member with old | new
    · exact attributed.origin name other old
    · obtain ⟨same, rfl, -⟩ := DeclarationTable.mem_liveNamed_iff.mp new
      obtain rfl := List.mem_singleton.mp same
      exact origin
  agreed name := by
    rw [DeclarationTable.liveNamed_append]
    refine List.pairwise_append.mpr ⟨attributed.agreed name, ?_, ?_⟩
    · exact (List.pairwise_singleton _ record).sublist List.filter_sublist
    · intro older old newer new
      obtain ⟨same, rfl, -⟩ := DeclarationTable.mem_liveNamed_iff.mp new
      obtain rfl := List.mem_singleton.mp same
      exact agreed older old

theorem adds (attributed : Attributed table.records holds) (wellFormed : table.WellFormed)
    (earlier : ∀ record ∈ table.records, record.owner.number ≤ owner.number) {item : Syntax.Item}
    (defines : ∀ name, item.Defines name → holds owner name) {added : List DeclarationRecord}
    (adds : Analysis.Adds owner table item added) : Attributed (table.records ++ added) holds := by
  -- A live record of a name agrees with the newest one, and that with the new one.
  have newest : ∀ {name : String} {older : DeclarationRecord},
      older ∈ liveNamed table.records name → ∃ newest, table.lookup name = some newest ∧
        newest.kind.signature? = older.kind.signature? ∧
        ∀ id ∈ older.kind.definition?, newest.kind.definition? = some id := by
    intro name older member
    obtain ⟨newest, found⟩ := wellFormed.exists_lookup member
    rcases attributed.agrees_newest wellFormed member found with rfl | agrees
    · exact ⟨older, found, rfl, fun _ known => known⟩
    · exact ⟨newest, found, agrees.signature, agrees.definition⟩
  cases adds with
  | nothing =>
    rw [List.append_nil]
    exact attributed
  | @defined record own signature definition first body =>
    apply attributed.append_record
    · rw [definition, own]
      rintro _ ⟨⟩
      exact ⟨Nat.le_refl _, defines _ body⟩
    · intro older member
      obtain ⟨newest, found, sameSignature, sameDefinition⟩ := newest member
      have unknown : ∀ id, id ∉ older.kind.definition? := by
        intro id known
        have known := sameDefinition id known
        rw [first newest found] at known
        cases known
      exact
        { signature := (signature newest found).trans sameSignature
          definition := fun id known => absurd known (unknown id)
          own := fun id known => absurd known (unknown id) }
  | @repeated record own signature definition =>
    apply attributed.append_record
    · intro id known
      rw [definition] at known
      obtain ⟨newest, found, newestKnows⟩ := Option.bind_eq_some_iff.mp known
      have member := wellFormed.mem_liveNamed_of_lookup found
      obtain ⟨below, body⟩ := attributed.origin record.name newest member id newestKnows
      rw [own]
      exact ⟨Nat.le_trans below (earlier newest (List.mem_of_mem_filter member)), body⟩
    · intro older member
      obtain ⟨newest, found, sameSignature, sameDefinition⟩ := newest member
      refine ⟨(signature newest found).trans sameSignature, ?_, ?_⟩
      · intro id known
        rw [definition, found]
        exact sameDefinition id known
      · -- Numbers of owners ascend, and that of a body is not above that of its record.
        intro id known same
        have above := (attributed.origin record.name older member id known).1
        have below := earlier older (List.mem_of_mem_filter member)
        rw [← own, same] at below
        exact congrArg TransactionId.mk (Nat.le_antisymm below above)

end Attributed

namespace Analysis

/-- The records that an analysis goes on with agree, and none is of a later transaction. -/
structure Orderly (holds : TransactionId → String → Prop) (owner : TransactionId)
    (analysis : Analysis) : Prop where
  attributed : Attributed analysis.table.records holds
  wellFormed : analysis.table.WellFormed
  below : analysis.table.Below (owner.number + 1)

theorem Orderly.earlier {holds : TransactionId → String → Prop} {owner : TransactionId}
    {analysis : Analysis} (orderly : Orderly holds owner analysis) :
    ∀ record ∈ analysis.table.records, record.owner.number ≤ owner.number :=
  fun record member => Nat.le_of_lt_succ (orderly.below record member).owner

theorem Orderly.checkItem {holds : TransactionId → String → Prop} {owner : TransactionId}
    {analysis : Analysis} {item : Syntax.Item} (orderly : Orderly holds owner analysis)
    (defines : ∀ name, item.Defines name → holds owner name)
    (errorless : (checkItem owner analysis item).hasErrors = false) :
    Orderly holds owner (checkItem owner analysis item) := by
  have extension : Extends owner analysis _ := checkItem_extends analysis item
  obtain ⟨record, accepts⟩ := checkItem_accepts errorless
  obtain ⟨added, records, adds⟩ := accepts.extended
  have next := orderly.attributed.adds orderly.wellFormed orderly.earlier defines adds
  rw [← records] at next
  exact ⟨next, extension.wellFormed orderly.wellFormed,
    extension.below _ orderly.wellFormed (Nat.lt_succ_self _) orderly.below⟩

end Analysis

namespace Attributed

variable {table : DeclarationTable} {holds : TransactionId → String → Prop}
  {owner : TransactionId}

/-- An analysis without errors keeps records in agreement, if its owner holds the bodies in its
items. -/
theorem analyze {items : List Syntax.Item} (attributed : Attributed table.records holds)
    (wellFormed : table.WellFormed) (below : table.Below (owner.number + 1))
    (defines : ∀ item ∈ items, ∀ name, item.Defines name → holds owner name)
    (errorless : (IncrementalC.analyze items table owner).hasErrors = false) :
    Attributed (IncrementalC.analyze items table owner).table.records holds := by
  have started : Analysis.Orderly holds owner (.start table owner) :=
    ⟨attributed, wellFormed, below⟩
  exact (Analysis.foldl_checkItem_keeps items started
    (fun _ orderly item member => orderly.checkItem (defines item member)) errorless).attributed

end Attributed

end IncrementalC
