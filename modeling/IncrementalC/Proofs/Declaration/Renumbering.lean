import IncrementalC.Proofs.Analysis.Congruence
import IncrementalC.Proofs.Declaration.Index

/-!
Contract: tables that differ by forgotten records only.

Input that came to nothing leaves a gap: numbers of transactions that no transaction
has, and numbers of declarations whose records are forgotten. A renumbering leaves a
gap at a fixed place among the numbers. A table with the gap and one without it match
when they hold the same records up to the renumbering.

Owns: renumberings of ids and records, matching tables, and that operations on
matching tables give matching tables and the same answers.

Does not own: how a gap comes about.
-/

namespace IncrementalC

/-- Numbers that are skipped: some of transactions, some of declarations. -/
structure Renumbering where
  firstTransaction : Nat
  skippedTransactions : Nat
  firstDeclaration : Nat
  skippedDeclarations : Nat
deriving DecidableEq, Repr

namespace Renumbering

/-- A number after `skipped` numbers from `first` on were left out. -/
def shift (first skipped number : Nat) : Nat :=
  if number < first then number else number + skipped

theorem shift_of_lt {first skipped number : Nat} (below : number < first) :
    shift first skipped number = number := if_pos below

theorem shift_of_le {first skipped number : Nat} (atLeast : first ≤ number) :
    shift first skipped number = number + skipped := if_neg (Nat.not_lt.mpr atLeast)

theorem shift_lt_shift {first skipped left right : Nat} :
    shift first skipped left < shift first skipped right ↔ left < right := by
  unfold shift
  split <;> split <;> omega

theorem shift_inj {first skipped left right : Nat} :
    shift first skipped left = shift first skipped right ↔ left = right := by
  unfold shift
  split <;> split <;> omega

/-- No number is shifted into the gap. -/
theorem shift_outside (first skipped number : Nat) :
    shift first skipped number < first ∨ first + skipped ≤ shift first skipped number := by
  unfold shift
  split <;> omega

variable (renumbering : Renumbering)

/-- The new number of a transaction. -/
def transaction (id : TransactionId) : TransactionId :=
  ⟨shift renumbering.firstTransaction renumbering.skippedTransactions id.number⟩

/-- The new number of a declaration. -/
def declaration (id : DeclarationId) : DeclarationId :=
  ⟨shift renumbering.firstDeclaration renumbering.skippedDeclarations id.number⟩

/-- What a declaration stands for, by the new numbers. -/
def kind : DeclarationKind → DeclarationKind
  | .variable => .variable
  | .function arity returns definition =>
    .function arity returns (definition.map renumbering.transaction)

/-- A record by the new numbers. -/
def record (record : DeclarationRecord) : DeclarationRecord :=
  { record with
    id := renumbering.declaration record.id,
    kind := renumbering.kind record.kind,
    owner := renumbering.transaction record.owner }

variable {renumbering}

@[simp] theorem transaction_inj {left right : TransactionId} :
    renumbering.transaction left = renumbering.transaction right ↔ left = right := by
  cases left
  cases right
  simp only [transaction, TransactionId.mk.injEq, shift_inj]

@[simp] theorem declaration_inj {left right : DeclarationId} :
    renumbering.declaration left = renumbering.declaration right ↔ left = right := by
  cases left
  cases right
  simp only [declaration, DeclarationId.mk.injEq, shift_inj]

theorem transaction_of_lt {id : TransactionId}
    (before : id.number < renumbering.firstTransaction) : renumbering.transaction id = id := by
  cases id
  simp only [transaction, shift_of_lt before]

theorem declaration_of_lt {id : DeclarationId}
    (before : id.number < renumbering.firstDeclaration) : renumbering.declaration id = id := by
  cases id
  simp only [declaration, shift_of_lt before]

/-- Kinds that agree up to the numbers have the same sense. -/
theorem sameSense_kind (found : Option DeclarationKind) :
    SameSense (found.map renumbering.kind) found := by
  rcases found with _ | ⟨_ | ⟨arity, returns, definition⟩⟩
  · exact .undeclared
  · exact .variable
  · exact .function arity returns _ _

@[simp] theorem owner_record (record : DeclarationRecord) :
    (renumbering.record record).owner = renumbering.transaction record.owner := rfl

@[simp] theorem isLive_record (record : DeclarationRecord) :
    (renumbering.record record).isLive = record.isLive := rfl

@[simp] theorem isLiveOf_record (owner : TransactionId) (record : DeclarationRecord) :
    (renumbering.record record).isLiveOf (renumbering.transaction owner) =
      record.isLiveOf owner := by
  simp [DeclarationRecord.isLiveOf]

@[simp] theorem awaitsCommit_record (owner : TransactionId) (record : DeclarationRecord) :
    (renumbering.record record).awaitsCommit (renumbering.transaction owner) =
      record.awaitsCommit owner := by
  simp [DeclarationRecord.awaitsCommit, Renumbering.record]

end Renumbering

namespace DeclarationTable

open Renumbering (shift)

/-! ## Matching tables -/

/-- `left` holds the records of `right` and, in the gap, forgotten ones. -/
structure Matches (renumbering : Renumbering) (left right : DeclarationTable) : Prop where
  left_wellFormed : left.WellFormed
  right_wellFormed : right.WellFormed
  records : ∃ older gap newer,
    right.records = older ++ newer ∧
    left.records =
      older.map renumbering.record ++ gap ++ newer.map renumbering.record ∧
    older.length = renumbering.firstDeclaration ∧
    gap.length = renumbering.skippedDeclarations ∧
    ∀ record ∈ gap, record.isLive = false

theorem liveNamed_renumbered (renumbering : Renumbering) (records : List DeclarationRecord)
    (name : String) :
    liveNamed (records.map renumbering.record) name =
      (liveNamed records name).map renumbering.record := by
  apply liveNamed_map
  · exact fun _ => rfl
  · exact fun _ => rfl

namespace Matches

variable {renumbering : Renumbering} {left right : DeclarationTable}

theorem first_le_length (matched : Matches renumbering left right) :
    renumbering.firstDeclaration ≤ right.records.length := by
  obtain ⟨older, gap, newer, rightRecords, -, olderLength, -, -⟩ := matched.records
  rw [rightRecords, List.length_append, olderLength]
  exact Nat.le_add_right ..

/-- Both tables give the next record corresponding numbers. -/
theorem length_eq (matched : Matches renumbering left right) :
    left.records.length =
      shift renumbering.firstDeclaration renumbering.skippedDeclarations
        right.records.length := by
  obtain ⟨older, gap, newer, rightRecords, leftRecords, olderLength, gapLength, -⟩ :=
    matched.records
  rw [Renumbering.shift_of_le matched.first_le_length, leftRecords, rightRecords]
  simp only [List.length_append, List.length_map]
  omega

theorem liveNamed_eq (matched : Matches renumbering left right) (name : String) :
    liveNamed left.records name = (liveNamed right.records name).map renumbering.record := by
  obtain ⟨older, gap, newer, rightRecords, leftRecords, -, -, forgotten⟩ := matched.records
  rw [leftRecords, rightRecords]
  simp only [liveNamed_append, liveNamed_renumbered, liveNamed_eq_nil forgotten,
    List.append_nil, List.map_append]

/-- A name is found in both tables or in none. -/
theorem lookup_eq (matched : Matches renumbering left right) (name : String) :
    left.lookup name = (right.lookup name).map renumbering.record := by
  rw [matched.left_wellFormed.lookup_eq, matched.right_wellFormed.lookup_eq,
    matched.liveNamed_eq, List.getLast?_map]

theorem lookup_kind_eq (matched : Matches renumbering left right) (name : String) :
    (left.lookup name).map DeclarationRecord.kind =
      ((right.lookup name).map DeclarationRecord.kind).map renumbering.kind := by
  rw [matched.lookup_eq, Option.map_map, Option.map_map]
  rfl

/-- Bodies are lowered alike against matching tables. -/
theorem agreesWith (matched : Matches renumbering left right) : left.AgreesWith right := by
  intro name
  rw [matched.lookup_kind_eq]
  exact Renumbering.sameSense_kind _

theorem liveCount_eq (matched : Matches renumbering left right) :
    left.liveCount = right.liveCount := by
  have sameTest : DeclarationRecord.isLive ∘ renumbering.record = DeclarationRecord.isLive := by
    funext record
    rfl
  obtain ⟨older, gap, newer, rightRecords, leftRecords, -, -, forgotten⟩ := matched.records
  have gapCount : gap.countP DeclarationRecord.isLive = 0 :=
    List.countP_eq_zero.mpr fun record member => by simp [forgotten record member]
  rw [matched.left_wellFormed.liveCount_eq, matched.right_wellFormed.liveCount_eq, leftRecords,
    rightRecords]
  simp only [List.countP_append, List.countP_map, sameTest, gapCount, Nat.add_zero]

/-! ## Operations on matching tables -/

/-- The next record of each table gets the corresponding number. -/
theorem next_id (matched : Matches renumbering left right) :
    (⟨left.records.length⟩ : DeclarationId) =
      renumbering.declaration ⟨right.records.length⟩ := by
  simp only [Renumbering.declaration, matched.length_eq]

theorem declare (matched : Matches renumbering left right) (name : String)
    (kind : DeclarationKind) (owner : TransactionId) (span : Span) :
    Matches renumbering
      (left.declare name (renumbering.kind kind) (renumbering.transaction owner) span).2
      (right.declare name kind owner span).2 where
  left_wellFormed := matched.left_wellFormed.declare ..
  right_wellFormed := matched.right_wellFormed.declare ..
  records := by
    obtain ⟨older, gap, newer, rightRecords, leftRecords, olderLength, gapLength, forgotten⟩ :=
      matched.records
    let added : DeclarationRecord :=
      ⟨⟨right.records.length⟩, name, kind, owner, .pending, span⟩
    refine ⟨older, gap, newer ++ [added], ?_, ?_, olderLength, gapLength, forgotten⟩
    · change right.records ++ [added] = _
      rw [rightRecords, List.append_assoc]
    · have renumbered : renumbering.record added =
          ⟨⟨left.records.length⟩, name, renumbering.kind kind, renumbering.transaction owner,
            .pending, span⟩ := by
        simp only [added, Renumbering.record, Renumbering.declaration, matched.length_eq]
      change left.records ++ [_] = _
      rw [← renumbered]
      conv_lhs => rw [leftRecords]
      simp only [List.map_append, List.map_cons, List.map_nil, List.append_assoc]

/-- A change of all records that respects the renumbering and keeps the gap forgotten
keeps tables matching. -/
private theorem map {leftChange rightChange : DeclarationRecord → DeclarationRecord}
    {changedLeft changedRight : DeclarationTable} (matched : Matches renumbering left right)
    (leftWellFormed : changedLeft.WellFormed) (rightWellFormed : changedRight.WellFormed)
    (leftRecords : changedLeft.records = left.records.map leftChange)
    (rightRecords : changedRight.records = right.records.map rightChange)
    (respects : ∀ record,
      leftChange (renumbering.record record) = renumbering.record (rightChange record))
    (keepsForgotten : ∀ record, record.isLive = false → (leftChange record).isLive = false) :
    Matches renumbering changedLeft changedRight where
  left_wellFormed := leftWellFormed
  right_wellFormed := rightWellFormed
  records := by
    obtain ⟨older, gap, newer, rightBefore, leftBefore, olderLength, gapLength, forgotten⟩ :=
      matched.records
    have swapped : ∀ records : List DeclarationRecord,
        (records.map renumbering.record).map leftChange =
          (records.map rightChange).map renumbering.record := by
      intro records
      simp only [List.map_map]
      exact List.map_congr_left fun record _ => respects record
    refine ⟨older.map rightChange, gap.map leftChange, newer.map rightChange, ?_, ?_, ?_, ?_, ?_⟩
    · rw [rightRecords, rightBefore, List.map_append]
    · rw [leftRecords, leftBefore]
      simp only [List.map_append, swapped]
    · rw [List.length_map, olderLength]
    · rw [List.length_map, gapLength]
    · intro record member
      obtain ⟨original, originalMember, rfl⟩ := List.mem_map.mp member
      exact keepsForgotten original (forgotten original originalMember)

theorem commit (matched : Matches renumbering left right) (owner : TransactionId) :
    Matches renumbering (left.commit (renumbering.transaction owner)).2 (right.commit owner).2 := by
  refine matched.map (matched.left_wellFormed.commit _) (matched.right_wellFormed.commit _)
    (commit_records ..) (commit_records ..) ?_ ?_
  · intro record
    unfold shown
    rw [Renumbering.awaitsCommit_record]
    split <;> rfl
  · intro record forgotten
    rw [isLive_shown, forgotten]

theorem forget (matched : Matches renumbering left right) (owner : TransactionId) :
    Matches renumbering (left.forget (renumbering.transaction owner)).2 (right.forget owner).2 := by
  refine matched.map (matched.left_wellFormed.forget _) (matched.right_wellFormed.forget _)
    (forget_records ..) (forget_records ..) ?_ ?_
  · intro record
    unfold hidden
    rw [Renumbering.isLiveOf_record]
    split <;> rfl
  · intro record forgotten
    rw [isLive_hidden, forgotten, Bool.false_and]

private theorem modify_map {leftChange rightChange : DeclarationRecord → DeclarationRecord}
    (respects : ∀ record,
      leftChange (renumbering.record record) = renumbering.record (rightChange record))
    (records : List DeclarationRecord) (position : Nat) :
    (records.map renumbering.record).modify position leftChange =
      (records.modify position rightChange).map renumbering.record := by
  induction records generalizing position with
  | nil => cases position <;> rfl
  | cons head tail inductionHypothesis =>
    cases position with
    | zero => simp [respects]
    | succ position => simp [inductionHypothesis]

theorem refine (matched : Matches renumbering left right) (id : DeclarationId)
    (kind : DeclarationKind) :
    Matches renumbering (left.refine (renumbering.declaration id) (renumbering.kind kind))
      (right.refine id kind) where
  left_wellFormed := matched.left_wellFormed.refine ..
  right_wellFormed := matched.right_wellFormed.refine ..
  records := by
    obtain ⟨older, gap, newer, rightRecords, leftRecords, olderLength, gapLength, forgotten⟩ :=
      matched.records
    have respects : ∀ record, withKind (renumbering.kind kind) (renumbering.record record) =
        renumbering.record (withKind kind record) := fun _ => rfl
    rw [refine_records, refine_records, leftRecords, rightRecords]
    by_cases before : id.number < renumbering.firstDeclaration
    · refine ⟨older.modify id.number (withKind kind), gap, newer, ?_, ?_, ?_, gapLength,
        forgotten⟩
      · exact modify_append_left _ (by omega)
      · rw [Renumbering.declaration_of_lt before, List.append_assoc,
          modify_append_left _ (by rw [List.length_map]; omega), modify_map respects,
          List.append_assoc]
      · rw [List.length_modify, olderLength]
    · -- The place is behind the gap, and moves with it.
      obtain ⟨offset, place⟩ := Nat.exists_eq_add_of_le (Nat.not_lt.mp before)
      have leftPlace : (renumbering.declaration id).number =
          (older.map renumbering.record ++ gap).length + offset := by
        simp only [Renumbering.declaration, Renumbering.shift_of_le (Nat.not_lt.mp before),
          List.length_append, List.length_map]
        omega
      refine ⟨older, gap, newer.modify offset (withKind kind), ?_, ?_, olderLength, gapLength,
        forgotten⟩
      · rw [place, ← olderLength, modify_append_right]
      · rw [leftPlace, modify_append_right, modify_map respects]

end Matches

end DeclarationTable

end IncrementalC
