import Mathlib.Data.List.Nodup
import IncrementalC.Declaration.Table

/-!
Contract: the index of a declaration table agrees with its records.

A table is well formed when its records are numbered by their places and the index
lists, for every name, the live records of that name, oldest first. Every operation
keeps tables well formed, so a look-up is a statement about the records alone.

Owns: `DeclarationTable.WellFormed`, its preservation, and what a look-up and the
count of live records say about the records.

Does not own: who may declare what.
-/

namespace IncrementalC.DeclarationTable

/-! ## Live records -/

/-- The live records of a name, oldest first. -/
def liveNamed (records : List DeclarationRecord) (name : String) : List DeclarationRecord :=
  records.filter fun record => record.name = name ∧ record.isLive

theorem mem_liveNamed_iff {records : List DeclarationRecord} {name : String}
    {record : DeclarationRecord} : record ∈ liveNamed records name ↔
      record ∈ records ∧ record.name = name ∧ record.isLive = true := by
  simp [liveNamed]

/-- The ids that an index lists under a name. -/
def listed (index : List (String × List DeclarationId)) (name : String) : List DeclarationId :=
  match index.find? fun entry => entry.1 = name with
  | some entry => entry.2
  | none => []

theorem indexed_eq_listed (table : DeclarationTable) (name : String) :
    table.indexed name = listed table.index name := rfl

/-- The index says what the records say. -/
structure WellFormed (table : DeclarationTable) : Prop where
  numbered : table.records.map DeclarationRecord.id =
    (List.range table.records.length).map DeclarationId.mk
  listed_eq : ∀ name, listed table.index name =
    (liveNamed table.records name).map DeclarationRecord.id
  namesDistinct : (table.index.map Prod.fst).Nodup
  nonempty : ∀ entry ∈ table.index, entry.2 ≠ []

/-! ## Look-up -/

private theorem id_at {records : List DeclarationRecord}
    (numbered : records.map DeclarationRecord.id =
      (List.range records.length).map DeclarationId.mk)
    {position : Nat} {record : DeclarationRecord} (found : records[position]? = some record) :
    record.id = ⟨position⟩ := by
  have below : position < records.length := (List.getElem?_eq_some_iff.mp found).1
  have entry := congrArg (fun ids : List DeclarationId => ids[position]?) numbered
  simp only [List.getElem?_map, found, List.getElem?_range below, Option.map_some] at entry
  exact Option.some.inj entry

namespace WellFormed

variable {table : DeclarationTable}

theorem id_of_getElem? (wellFormed : table.WellFormed) {position : Nat}
    {record : DeclarationRecord} (found : table.records[position]? = some record) :
    record.id = ⟨position⟩ :=
  id_at wellFormed.numbered found

/-- Every record is found under its own id. -/
theorem get?_id (wellFormed : table.WellFormed) {record : DeclarationRecord}
    (member : record ∈ table.records) : table.get? record.id = some record := by
  obtain ⟨position, found⟩ := List.mem_iff_getElem?.mp member
  have same := wellFormed.id_of_getElem? found
  unfold get?
  rw [same]
  exact found

/-- Two records with one id are one record. -/
theorem eq_of_id_eq (wellFormed : table.WellFormed) {left right : DeclarationRecord}
    (leftMember : left ∈ table.records) (rightMember : right ∈ table.records)
    (same : left.id = right.id) : left = right := by
  have leftFound := wellFormed.get?_id leftMember
  rw [same, wellFormed.get?_id rightMember] at leftFound
  exact (Option.some.inj leftFound).symm

/-- Records stand by ascending number. -/
theorem ascending (wellFormed : table.WellFormed) :
    table.records.Pairwise fun older newer => older.id.number < newer.id.number := by
  have numbers := congrArg (List.map DeclarationId.number) wellFormed.numbered
  rw [List.map_map, List.map_map] at numbers
  have ascending : (table.records.map (DeclarationId.number ∘ DeclarationRecord.id)).Pairwise
      (· < ·) := by
    rw [numbers]
    exact List.pairwise_map.mpr List.pairwise_lt_range
  exact List.pairwise_map.mp ascending

/-- A look-up yields the newest live record of the name. -/
theorem lookup_eq (wellFormed : table.WellFormed) (name : String) :
    table.lookup name = (liveNamed table.records name).getLast? := by
  unfold lookup
  rw [indexed_eq_listed, wellFormed.listed_eq, List.getLast?_map]
  cases newest : (liveNamed table.records name).getLast? with
  | none => rfl
  | some record =>
    have member : record ∈ table.records :=
      List.mem_of_mem_filter (List.mem_of_getLast? newest)
    exact wellFormed.get?_id member

theorem ascending_liveNamed (wellFormed : table.WellFormed) (name : String) :
    (liveNamed table.records name).Pairwise fun older newer => older.id.number < newer.id.number :=
  wellFormed.ascending.sublist List.filter_sublist

theorem mem_liveNamed_of_lookup (wellFormed : table.WellFormed) {name : String}
    {record : DeclarationRecord} (found : table.lookup name = some record) :
    record ∈ liveNamed table.records name := by
  rw [wellFormed.lookup_eq] at found
  exact List.mem_of_getLast? found

theorem mem_of_lookup (wellFormed : table.WellFormed) {name : String}
    {record : DeclarationRecord} (found : table.lookup name = some record) :
    record ∈ table.records :=
  List.mem_of_mem_filter (wellFormed.mem_liveNamed_of_lookup found)

/-- A name with a live record is found. -/
theorem exists_lookup (wellFormed : table.WellFormed) {name : String}
    {record : DeclarationRecord} (member : record ∈ liveNamed table.records name) :
    ∃ newest, table.lookup name = some newest := by
  rw [← Option.isSome_iff_exists, wellFormed.lookup_eq, List.getLast?_isSome]
  exact List.ne_nil_of_mem member

/-- A live record is followed by the one that a look-up yields, or is it. -/
theorem eq_or_lt_of_lookup (wellFormed : table.WellFormed) {name : String}
    {older newest : DeclarationRecord} (member : older ∈ liveNamed table.records name)
    (found : table.lookup name = some newest) :
    older = newest ∨ older.id.number < newest.id.number := by
  rw [wellFormed.lookup_eq] at found
  obtain ⟨earlier, split⟩ := List.getLast?_eq_some_iff.mp found
  have ascending := wellFormed.ascending_liveNamed name
  rw [split] at member ascending
  rcases List.mem_append.mp member with old | new
  · exact .inr ((List.pairwise_append.mp ascending).2.2 older old newest List.mem_cons_self)
  · exact .inl (List.mem_singleton.mp new)

end WellFormed

/-! ## The index operations -/

theorem listed_cons (entry : String × List DeclarationId)
    (rest : List (String × List DeclarationId)) (name : String) :
    listed (entry :: rest) name = if entry.1 = name then entry.2 else listed rest name := by
  by_cases here : entry.1 = name <;> simp [listed, here]

theorem listed_eq_nil {index : List (String × List DeclarationId)} {name : String}
    (absent : name ∉ index.map Prod.fst) : listed index name = [] := by
  induction index with
  | nil => rfl
  | cons entry rest inductionHypothesis =>
    simp only [List.map_cons, List.mem_cons, not_or] at absent
    rw [listed_cons, if_neg (Ne.symm absent.1), inductionHypothesis absent.2]

theorem listed_indexInsert (name other : String) (id : DeclarationId)
    (index : List (String × List DeclarationId)) :
    listed (indexInsert name id index) other =
      if other = name then listed index name ++ [id] else listed index other := by
  induction index with
  | nil =>
    by_cases same : other = name
    · simp [indexInsert, listed, same]
    · simp [indexInsert, listed, same, Ne.symm same]
  | cons entry rest inductionHypothesis =>
    by_cases here : entry.1 = name
    · by_cases same : other = name
      · simp [indexInsert, listed_cons, here, same]
      · have differs : ¬ name = other := fun equal => same equal.symm
        simp [indexInsert, listed_cons, here, same, differs]
    · simp only [indexInsert, if_neg here, listed_cons, inductionHypothesis]
      by_cases same : other = name
      · subst same
        simp [here]
      · simp [same]

theorem names_indexInsert (name : String) (id : DeclarationId)
    (index : List (String × List DeclarationId)) :
    (indexInsert name id index).map Prod.fst =
      if name ∈ index.map Prod.fst then index.map Prod.fst
      else index.map Prod.fst ++ [name] := by
  induction index with
  | nil => rfl
  | cons entry rest inductionHypothesis =>
    by_cases here : entry.1 = name
    · simp [indexInsert, here]
    · simp only [indexInsert, if_neg here, List.map_cons, inductionHypothesis]
      by_cases member : name ∈ rest.map Prod.fst
      · simp [member]
      · simp [member, Ne.symm here]

theorem nonempty_indexInsert {name : String} {id : DeclarationId}
    {index : List (String × List DeclarationId)} (nonempty : ∀ entry ∈ index, entry.2 ≠ []) :
    ∀ entry ∈ indexInsert name id index, entry.2 ≠ [] := by
  induction index with
  | nil => simp [indexInsert]
  | cons head rest inductionHypothesis =>
    have tailNonempty : ∀ entry ∈ rest, entry.2 ≠ [] := fun entry member =>
      nonempty entry (List.mem_cons_of_mem head member)
    by_cases here : head.1 = name
    · simp only [indexInsert, if_pos here, List.mem_cons]
      rintro entry (rfl | member)
      · simp
      · exact tailNonempty entry member
    · simp only [indexInsert, if_neg here, List.mem_cons]
      rintro entry (rfl | member)
      · exact nonempty entry (List.mem_cons_self ..)
      · exact inductionHypothesis tailNonempty entry member

theorem names_indexRemove_sublist (name : String) (id : DeclarationId)
    (index : List (String × List DeclarationId)) :
    ((indexRemove name id index).map Prod.fst).Sublist (index.map Prod.fst) := by
  induction index with
  | nil => exact .slnil
  | cons entry rest inductionHypothesis =>
    by_cases here : entry.1 = name
    · simp only [indexRemove, if_pos here]
      split
      · exact (List.Sublist.refl _).cons _
      · simp [here]
    · simp only [indexRemove, if_neg here, List.map_cons]
      exact inductionHypothesis.cons_cons _

theorem listed_indexRemove {index : List (String × List DeclarationId)}
    (distinct : (index.map Prod.fst).Nodup) (name other : String) (id : DeclarationId) :
    listed (indexRemove name id index) other =
      if other = name then (listed index name).filter (· ≠ id) else listed index other := by
  induction index with
  | nil => simp [indexRemove, listed]
  | cons entry rest inductionHypothesis =>
    simp only [List.map_cons, List.nodup_cons] at distinct
    by_cases here : entry.1 = name
    · have absent : listed rest name = [] := listed_eq_nil (here ▸ distinct.1)
      simp only [indexRemove, if_pos here]
      split
      · rename_i emptied
        by_cases same : other = name
        · subst same
          simp only [List.isEmpty_iff] at emptied
          rw [if_pos rfl, listed_cons, if_pos here, absent, emptied]
        · rw [if_neg same, listed_cons, if_neg (fun equal => same (equal.symm.trans here))]
      · by_cases same : other = name
        · subst same
          simp [listed_cons, here]
        · have differs : ¬ name = other := fun equal => same equal.symm
          simp [listed_cons, here, same, differs]
    · simp only [indexRemove, if_neg here, listed_cons, inductionHypothesis distinct.2]
      by_cases same : other = name
      · subst same
        simp [here]
      · simp [same]

theorem nonempty_indexRemove {name : String} {id : DeclarationId}
    {index : List (String × List DeclarationId)} (nonempty : ∀ entry ∈ index, entry.2 ≠ []) :
    ∀ entry ∈ indexRemove name id index, entry.2 ≠ [] := by
  induction index with
  | nil => simp [indexRemove]
  | cons head rest inductionHypothesis =>
    have tailNonempty : ∀ entry ∈ rest, entry.2 ≠ [] := fun entry member =>
      nonempty entry (List.mem_cons_of_mem head member)
    by_cases here : head.1 = name
    · simp only [indexRemove, if_pos here]
      split
      · exact tailNonempty
      · rename_i remaining
        simp only [List.mem_cons]
        rintro entry (rfl | member)
        · simpa [List.isEmpty_iff] using remaining
        · exact tailNonempty entry member
    · simp only [indexRemove, if_neg here, List.mem_cons]
      rintro entry (rfl | member)
      · exact nonempty entry (List.mem_cons_self ..)
      · exact inductionHypothesis tailNonempty entry member

/-! ## Removing several records from the index -/

/-- The index without each of `records`, as forgetting computes it. -/
def indexRemoveAll (records : List DeclarationRecord)
    (index : List (String × List DeclarationId)) : List (String × List DeclarationId) :=
  records.foldl (fun index record => indexRemove record.name record.id index) index

theorem names_indexRemoveAll_sublist (records : List DeclarationRecord)
    (index : List (String × List DeclarationId)) :
    ((indexRemoveAll records index).map Prod.fst).Sublist (index.map Prod.fst) := by
  induction records generalizing index with
  | nil => exact .refl _
  | cons head tail inductionHypothesis =>
    exact (inductionHypothesis _).trans (names_indexRemove_sublist head.name head.id index)

theorem nonempty_indexRemoveAll {records : List DeclarationRecord}
    {index : List (String × List DeclarationId)} (nonempty : ∀ entry ∈ index, entry.2 ≠ []) :
    ∀ entry ∈ indexRemoveAll records index, entry.2 ≠ [] := by
  induction records generalizing index with
  | nil => exact nonempty
  | cons head tail inductionHypothesis =>
    exact inductionHypothesis (nonempty_indexRemove nonempty)

theorem listed_indexRemoveAll {records : List DeclarationRecord}
    {index : List (String × List DeclarationId)} (distinct : (index.map Prod.fst).Nodup)
    (name : String) :
    listed (indexRemoveAll records index) name = (listed index name).filter fun id =>
      ∀ record ∈ records, record.name = name → record.id ≠ id := by
  induction records generalizing index with
  | nil => simp [indexRemoveAll]
  | cons head tail inductionHypothesis =>
    have removed : ((indexRemove head.name head.id index).map Prod.fst).Nodup :=
      distinct.sublist (names_indexRemove_sublist head.name head.id index)
    have step : indexRemoveAll (head :: tail) index =
        indexRemoveAll tail (indexRemove head.name head.id index) := rfl
    rw [step, inductionHypothesis removed, listed_indexRemove distinct]
    by_cases same : name = head.name
    · subst same
      rw [if_pos rfl, List.filter_filter]
      apply List.filter_congr
      intro id _
      rw [Bool.eq_iff_iff]
      simp only [Bool.and_eq_true, decide_eq_true_eq, List.mem_cons, forall_eq_or_imp]
      exact ⟨fun kept => ⟨fun _ => Ne.symm kept.2, kept.1⟩,
        fun kept => ⟨kept.2, Ne.symm (kept.1 trivial)⟩⟩
    · rw [if_neg same]
      apply List.filter_congr
      intro id _
      simp [Ne.symm same]

/-! ## Operations keep tables well formed -/

theorem wellFormed_empty : WellFormed .empty :=
  ⟨rfl, fun _ => rfl, .nil, fun _ member => absurd member List.not_mem_nil⟩

theorem liveNamed_append (left right : List DeclarationRecord) (name : String) :
    liveNamed (left ++ right) name = liveNamed left name ++ liveNamed right name :=
  List.filter_append ..

theorem WellFormed.declare {table : DeclarationTable} (wellFormed : table.WellFormed)
    (name : String) (kind : DeclarationKind) (owner : TransactionId) (span : Span) :
    (table.declare name kind owner span).2.WellFormed where
  numbered := by
    simp [DeclarationTable.declare, add, wellFormed.numbered, List.range_succ]
  listed_eq other := by
    simp only [DeclarationTable.declare, add, listed_indexInsert, liveNamed_append, List.map_append,
      wellFormed.listed_eq]
    by_cases same : other = name
    · simp [same, liveNamed, DeclarationRecord.isLive]
    · simp [same, liveNamed, Ne.symm same]
  namesDistinct := by
    have distinct := wellFormed.namesDistinct
    simp only [DeclarationTable.declare, add, names_indexInsert]
    split
    · exact distinct
    · rename_i absent
      exact List.nodup_append.mpr
        ⟨distinct, List.nodup_singleton name, fun left member right single equal =>
          absent (List.mem_singleton.mp single ▸ equal ▸ member)⟩
  nonempty := nonempty_indexInsert wellFormed.nonempty

/-- Declaring a name gives it a live record and takes none away. -/
theorem WellFormed.isSome_lookup_declare {table : DeclarationTable}
    (wellFormed : table.WellFormed) (name : String) (kind : DeclarationKind)
    (owner : TransactionId) (span : Span) (other : String) :
    ((table.declare name kind owner span).2.lookup other).isSome =
      (decide (other = name) || (table.lookup other).isSome) := by
  rw [(wellFormed.declare name kind owner span).lookup_eq, wellFormed.lookup_eq]
  simp only [DeclarationTable.declare, add, liveNamed_append, List.getLast?_append]
  by_cases same : other = name
  · simp [same, liveNamed, DeclarationRecord.isLive]
  · simp [same, liveNamed, Ne.symm same]

/-- A change of records that keeps ids and names, and changes visibility only, leaves
the ids in place. -/
theorem map_id_of_preserves {change : DeclarationRecord → DeclarationRecord}
    (keepsId : ∀ record, (change record).id = record.id) (records : List DeclarationRecord) :
    (records.map change).map DeclarationRecord.id = records.map DeclarationRecord.id := by
  rw [List.map_map]
  exact List.map_congr_left fun record _ => keepsId record

/-- A change of records that keeps names and liveness changes live records in place. -/
theorem liveNamed_map {change : DeclarationRecord → DeclarationRecord}
    (keepsName : ∀ record, (change record).name = record.name)
    (keepsLive : ∀ record, (change record).isLive = record.isLive)
    (records : List DeclarationRecord) (name : String) :
    liveNamed (records.map change) name = (liveNamed records name).map change := by
  have sameTest : ((fun record => decide (record.name = name ∧ record.isLive = true)) ∘ change) =
      fun record : DeclarationRecord => decide (record.name = name ∧ record.isLive = true) := by
    funext record
    simp [keepsName, keepsLive]
  unfold liveNamed
  rw [List.filter_map, sameTest]

theorem liveNamed_eq_nil {records : List DeclarationRecord}
    (forgotten : ∀ record ∈ records, record.isLive = false) (name : String) :
    liveNamed records name = [] := by
  rw [liveNamed, List.filter_eq_nil_iff]
  intro record member
  simp [forgotten record member]

/-- Forgotten records answer no look-up. -/
theorem WellFormed.lookup_gap {table later : DeclarationTable} (wellFormed : table.WellFormed)
    (laterWellFormed : later.WellFormed) {gap : List DeclarationRecord}
    (records : later.records = table.records ++ gap)
    (forgotten : ∀ record ∈ gap, record.isLive = false) (name : String) :
    later.lookup name = table.lookup name := by
  rw [laterWellFormed.lookup_eq, wellFormed.lookup_eq, records, liveNamed_append,
    liveNamed_eq_nil forgotten, List.append_nil]

/-- Replaces what a record stands for. -/
def withKind (kind : DeclarationKind) (record : DeclarationRecord) : DeclarationRecord :=
  { record with kind }

theorem refine_records (table : DeclarationTable) (id : DeclarationId)
    (kind : DeclarationKind) :
    (table.refine id kind).records = table.records.modify id.number (withKind kind) := rfl

private theorem map_modify_of_preserves {α : Type} (view : DeclarationRecord → α)
    (change : DeclarationRecord → DeclarationRecord)
    (keeps : ∀ record, view (change record) = view record) (position : Nat)
    (records : List DeclarationRecord) :
    (records.modify position change).map view = records.map view := by
  induction records generalizing position with
  | nil => cases position <;> rfl
  | cons head tail inductionHypothesis =>
    cases position with
    | zero => simp [keeps]
    | succ position => simp [inductionHypothesis]

theorem modify_append_left {records others : List DeclarationRecord} {position : Nat}
    (change : DeclarationRecord → DeclarationRecord) (inside : position < records.length) :
    (records ++ others).modify position change = records.modify position change ++ others := by
  induction records generalizing position with
  | nil => exact absurd inside (Nat.not_lt_zero _)
  | cons head tail inductionHypothesis =>
    cases position with
    | zero => simp
    | succ position =>
      simp only [List.length_cons, Nat.succ_lt_succ_iff] at inside
      simp [inductionHypothesis inside]

theorem modify_append_right (records others : List DeclarationRecord) (position : Nat)
    (change : DeclarationRecord → DeclarationRecord) :
    (records ++ others).modify (records.length + position) change =
      records ++ others.modify position change := by
  induction records with
  | nil => simp
  | cons head tail inductionHypothesis =>
    rw [List.cons_append, List.length_cons, Nat.add_right_comm, List.modify_succ_cons,
      inductionHypothesis, List.cons_append]

/-- A record can be declared as something else right away. -/
theorem refine_declare (table : DeclarationTable) (name : String)
    (first second : DeclarationKind) (owner : TransactionId) (span : Span) :
    (table.declare name first owner span).2.refine (table.declare name first owner span).1 second =
      (table.declare name second owner span).2 := by
  have changed := modify_append_right table.records
    [⟨⟨table.records.length⟩, name, first, owner, .pending, span⟩] 0 (withKind second)
  simp only [Nat.add_zero, List.modify_zero_cons] at changed
  simp only [DeclarationTable.declare, add, DeclarationTable.refine]
  exact congrArg (DeclarationTable.mk · _) changed

theorem liveNamed_cons (head : DeclarationRecord) (tail : List DeclarationRecord)
    (name : String) :
    liveNamed (head :: tail) name =
      if head.name = name ∧ head.isLive then head :: liveNamed tail name
      else liveNamed tail name := by
  unfold liveNamed
  rw [List.filter_cons]
  simp only [decide_eq_true_eq]

private theorem liveNamed_modify_ids (change : DeclarationRecord → DeclarationRecord)
    (keepsId : ∀ record, (change record).id = record.id)
    (keepsName : ∀ record, (change record).name = record.name)
    (keepsLive : ∀ record, (change record).isLive = record.isLive) (position : Nat)
    (records : List DeclarationRecord) (name : String) :
    (liveNamed (records.modify position change) name).map DeclarationRecord.id =
      (liveNamed records name).map DeclarationRecord.id := by
  induction records generalizing position with
  | nil => cases position <;> rfl
  | cons head tail inductionHypothesis =>
    cases position with
    | zero =>
      simp only [List.modify_zero_cons, liveNamed_cons, keepsName, keepsLive]
      split <;> simp [keepsId]
    | succ position =>
      simp only [List.modify_succ_cons, liveNamed_cons]
      split <;> simp [inductionHypothesis]

theorem WellFormed.refine {table : DeclarationTable} (wellFormed : table.WellFormed)
    (id : DeclarationId) (kind : DeclarationKind) : (table.refine id kind).WellFormed where
  numbered := by
    rw [refine_records, List.length_modify,
      map_modify_of_preserves DeclarationRecord.id (withKind kind) (fun _ => rfl)]
    exact wellFormed.numbered
  listed_eq name := by
    rw [refine_records, liveNamed_modify_ids (withKind kind) (fun _ => rfl)
      (fun _ => rfl) (fun _ => rfl)]
    exact wellFormed.listed_eq name
  namesDistinct := wellFormed.namesDistinct
  nonempty := wellFormed.nonempty

/-- A record after its owner may have been committed. -/
def shown (owner : TransactionId) (record : DeclarationRecord) : DeclarationRecord :=
  if record.awaitsCommit owner then { record with visibility := .visible } else record

/-- A record after its owner may have been forgotten. -/
def hidden (owner : TransactionId) (record : DeclarationRecord) : DeclarationRecord :=
  if record.isLiveOf owner then { record with visibility := .forgotten } else record

theorem commit_records (table : DeclarationTable) (owner : TransactionId) :
    (table.commit owner).2.records = table.records.map (shown owner) := rfl

theorem forget_records (table : DeclarationTable) (owner : TransactionId) :
    (table.forget owner).2.records = table.records.map (hidden owner) := rfl

theorem isLive_shown (owner : TransactionId) (record : DeclarationRecord) :
    (shown owner record).isLive = record.isLive := by
  unfold shown
  split
  · rename_i pending
    simp only [DeclarationRecord.awaitsCommit, decide_eq_true_eq] at pending
    simp [DeclarationRecord.isLive, pending.2]
  · rfl

theorem isLive_hidden (owner : TransactionId) (record : DeclarationRecord) :
    (hidden owner record).isLive = (record.isLive && !decide (record.owner = owner)) := by
  unfold hidden
  split
  · rename_i live
    simp only [DeclarationRecord.isLiveOf, decide_eq_true_eq] at live
    simp [DeclarationRecord.isLive, live.1]
  · rename_i live
    simp only [DeclarationRecord.isLiveOf, decide_eq_true_eq, not_and] at live
    by_cases owned : record.owner = owner
    · simp [owned, live owned]
    · simp [owned]

@[simp] theorem id_shown (owner : TransactionId) (record : DeclarationRecord) :
    (shown owner record).id = record.id := by
  unfold shown; split <;> rfl

@[simp] theorem name_shown (owner : TransactionId) (record : DeclarationRecord) :
    (shown owner record).name = record.name := by
  unfold shown; split <;> rfl

@[simp] theorem id_hidden (owner : TransactionId) (record : DeclarationRecord) :
    (hidden owner record).id = record.id := by
  unfold hidden; split <;> rfl

@[simp] theorem name_hidden (owner : TransactionId) (record : DeclarationRecord) :
    (hidden owner record).name = record.name := by
  unfold hidden; split <;> rfl

@[simp] theorem owner_shown (owner : TransactionId) (record : DeclarationRecord) :
    (shown owner record).owner = record.owner := by
  unfold shown; split <;> rfl

@[simp] theorem owner_hidden (owner : TransactionId) (record : DeclarationRecord) :
    (hidden owner record).owner = record.owner := by
  unfold hidden; split <;> rfl

@[simp] theorem kind_shown (owner : TransactionId) (record : DeclarationRecord) :
    (shown owner record).kind = record.kind := by
  unfold shown; split <;> rfl

@[simp] theorem kind_hidden (owner : TransactionId) (record : DeclarationRecord) :
    (hidden owner record).kind = record.kind := by
  unfold hidden; split <;> rfl

/-- Records of other transactions are committed apart. -/
theorem shown_of_owner_ne {owner : TransactionId} {record : DeclarationRecord}
    (foreign : record.owner ≠ owner) : shown owner record = record := by
  simp [shown, DeclarationRecord.awaitsCommit, foreign]

/-- Records of other transactions are not forgotten. -/
theorem hidden_of_owner_ne {owner : TransactionId} {record : DeclarationRecord}
    (foreign : record.owner ≠ owner) : hidden owner record = record := by
  simp [hidden, DeclarationRecord.isLiveOf, foreign]

/-- The pending records of a transaction are visible once it is committed. -/
theorem visibility_shown {owner : TransactionId} {record : DeclarationRecord}
    (own : record.owner = owner) (pending : record.visibility = .pending) :
    (shown owner record).visibility = .visible := by
  simp [shown, DeclarationRecord.awaitsCommit, own, pending]

/-- The records of a transaction are forgotten with it. -/
theorem visibility_hidden {owner : TransactionId} {record : DeclarationRecord}
    (own : record.owner = owner) : (hidden owner record).visibility = .forgotten := by
  unfold hidden
  split
  · rfl
  · next live => simpa [DeclarationRecord.isLiveOf, DeclarationRecord.isLive, own] using live

theorem WellFormed.commit {table : DeclarationTable} (wellFormed : table.WellFormed)
    (owner : TransactionId) : (table.commit owner).2.WellFormed where
  numbered := by
    rw [commit_records, map_id_of_preserves (id_shown owner), List.length_map]
    exact wellFormed.numbered
  listed_eq name := by
    rw [commit_records, liveNamed_map (name_shown owner) (isLive_shown owner),
      map_id_of_preserves (id_shown owner)]
    exact wellFormed.listed_eq name
  namesDistinct := wellFormed.namesDistinct
  nonempty := wellFormed.nonempty

/-- Hiding an owner's records leaves of the live ones those of other owners. -/
theorem liveNamed_hidden (owner : TransactionId) (records : List DeclarationRecord)
    (name : String) :
    liveNamed (records.map (hidden owner)) name =
      (liveNamed records name).filter fun record => record.owner ≠ owner := by
  have sameTest : ((fun record => decide (record.name = name ∧ record.isLive = true)) ∘
      hidden owner) = fun record : DeclarationRecord =>
        decide (record.owner ≠ owner) && decide (record.name = name ∧ record.isLive = true) := by
    funext record
    by_cases owned : record.owner = owner <;> simp [isLive_hidden, owned]
  unfold liveNamed
  rw [List.filter_map, sameTest, List.filter_filter]
  refine (List.map_congr_left fun record member => ?_).trans (List.map_id _)
  have foreign := (List.mem_filter.mp member).2
  simp only [Bool.and_eq_true, decide_eq_true_eq] at foreign
  exact hidden_of_owner_ne foreign.1

theorem WellFormed.forget {table : DeclarationTable} (wellFormed : table.WellFormed)
    (owner : TransactionId) : (table.forget owner).2.WellFormed where
  numbered := by
    rw [forget_records, map_id_of_preserves (id_hidden owner), List.length_map]
    exact wellFormed.numbered
  listed_eq name := by
    rw [forget_records, liveNamed_hidden]
    change listed (indexRemoveAll (table.records.filter (DeclarationRecord.isLiveOf owner))
      table.index) name = _
    rw [listed_indexRemoveAll wellFormed.namesDistinct, wellFormed.listed_eq, List.filter_map]
    congr 1
    apply List.filter_congr
    intro record member
    have recorded : record ∈ table.records := List.mem_of_mem_filter member
    have test := (List.mem_filter.mp member).2
    simp only [decide_eq_true_eq] at test
    -- The ids that go away under this name are those of the owner's live records.
    simp only [Function.comp_apply, List.mem_filter, DeclarationRecord.isLiveOf,
      decide_eq_true_eq, decide_eq_decide]
    constructor
    · intro kept owned
      exact kept record ⟨recorded, owned, test.2⟩ test.1 rfl
    · intro foreign other removed _ same
      have equal := wellFormed.eq_of_id_eq removed.1 recorded same
      exact foreign (equal ▸ removed.2.1)
  namesDistinct := wellFormed.namesDistinct.sublist (names_indexRemoveAll_sublist _ _)
  nonempty := nonempty_indexRemoveAll wellFormed.nonempty

/-! ## Counting live records -/

theorem listed_of_mem {index : List (String × List DeclarationId)}
    (distinct : (index.map Prod.fst).Nodup) {entry : String × List DeclarationId}
    (member : entry ∈ index) : listed index entry.1 = entry.2 := by
  induction index with
  | nil => exact absurd member List.not_mem_nil
  | cons head rest inductionHypothesis =>
    simp only [List.map_cons, List.nodup_cons] at distinct
    rw [listed_cons]
    rcases List.mem_cons.mp member with rfl | later
    · exact if_pos rfl
    · have differs : head.1 ≠ entry.1 := fun same =>
        distinct.1 (same ▸ List.mem_map_of_mem later)
      rw [if_neg differs, inductionHypothesis distinct.2 later]

namespace WellFormed

variable {table : DeclarationTable}

theorem ids_nodup (wellFormed : table.WellFormed) :
    (table.records.map DeclarationRecord.id).Nodup := by
  rw [wellFormed.numbered]
  exact List.nodup_range.map fun left right same => by simpa using same

private theorem mem_indexed_iff (wellFormed : table.WellFormed) (id : DeclarationId) :
    id ∈ table.index.flatMap Prod.snd ↔
      id ∈ (table.records.filter DeclarationRecord.isLive).map DeclarationRecord.id := by
  simp only [List.mem_flatMap, List.mem_map, List.mem_filter]
  constructor
  · rintro ⟨entry, member, listedHere⟩
    rw [← listed_of_mem wellFormed.namesDistinct member, wellFormed.listed_eq] at listedHere
    obtain ⟨record, live, same⟩ := List.mem_map.mp listedHere
    have test := (List.mem_filter.mp live).2
    simp only [decide_eq_true_eq] at test
    exact ⟨record, ⟨List.mem_of_mem_filter live, test.2⟩, same⟩
  · rintro ⟨record, ⟨member, live⟩, rfl⟩
    have listedHere : record.id ∈ listed table.index record.name := by
      rw [wellFormed.listed_eq]
      exact List.mem_map_of_mem (List.mem_filter.mpr ⟨member, by simp [live]⟩)
    unfold listed at listedHere
    split at listedHere
    · rename_i entry found
      exact ⟨entry, List.mem_of_find?_eq_some found, listedHere⟩
    · exact absurd listedHere List.not_mem_nil

private theorem indexed_nodup (wellFormed : table.WellFormed) :
    (table.index.flatMap Prod.snd).Nodup := by
  have listedIds : ∀ entry ∈ table.index,
      entry.2 = (liveNamed table.records entry.1).map DeclarationRecord.id := by
    intro entry member
    rw [← wellFormed.listed_eq, listed_of_mem wellFormed.namesDistinct member]
  rw [List.nodup_flatMap]
  constructor
  · intro entry member
    rw [listedIds entry member]
    exact wellFormed.ids_nodup.sublist (List.filter_sublist.map _)
  · have distinct := List.pairwise_map.mp wellFormed.namesDistinct
    refine distinct.imp_of_mem fun {left right} leftMember rightMember differs => ?_
    -- An id under two names would be the id of one record with both names.
    intro id leftId rightId
    rw [listedIds left leftMember] at leftId
    rw [listedIds right rightMember] at rightId
    obtain ⟨first, firstMember, firstId⟩ := List.mem_map.mp leftId
    obtain ⟨second, secondMember, secondId⟩ := List.mem_map.mp rightId
    have same := wellFormed.eq_of_id_eq (List.mem_of_mem_filter firstMember)
      (List.mem_of_mem_filter secondMember) (firstId.trans secondId.symm)
    have firstTest := (List.mem_filter.mp firstMember).2
    have secondTest := (List.mem_filter.mp secondMember).2
    simp only [decide_eq_true_eq] at firstTest secondTest
    exact differs (firstTest.1.symm.trans (same ▸ secondTest.1))

/-- The index lists every live record once. -/
theorem liveCount_eq (wellFormed : table.WellFormed) :
    table.liveCount = table.records.countP DeclarationRecord.isLive := by
  have liveNodup : ((table.records.filter DeclarationRecord.isLive).map
      DeclarationRecord.id).Nodup :=
    wellFormed.ids_nodup.sublist (List.filter_sublist.map _)
  have permutation := (List.perm_ext_iff_of_nodup wellFormed.indexed_nodup liveNodup).mpr
    wellFormed.mem_indexed_iff
  rw [liveCount, permutation.length_eq, List.length_map, List.countP_eq_length_filter]

/-- The declared names are those that a look-up finds. -/
theorem mem_liveNames_iff (wellFormed : table.WellFormed) (name : String) :
    name ∈ table.liveNames ↔ (table.lookup name).isSome := by
  rw [wellFormed.lookup_eq, List.getLast?_isSome, liveNames]
  have sameIds := wellFormed.listed_eq name
  constructor
  · intro member
    obtain ⟨entry, entryMember, rfl⟩ := List.mem_map.mp member
    rw [listed_of_mem wellFormed.namesDistinct entryMember] at sameIds
    intro none
    rw [none, List.map_nil] at sameIds
    exact wellFormed.nonempty entry entryMember sameIds
  · intro found
    by_contra absent
    rw [listed_eq_nil absent] at sameIds
    exact found (List.map_eq_nil_iff.mp sameIds.symm)

end WellFormed

end IncrementalC.DeclarationTable
