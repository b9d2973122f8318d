import IncrementalC.Transaction.Log

/-!
Contract: the log of committed transactions is in order.

Owns: well-formed logs, that logging and erasing keep them well formed, and what a
look-up finds afterwards.

Does not own: which transactions are logged.
-/

namespace IncrementalC.TransactionLog

/-- The entries are committed, ascend by number, and have numbers that were given. -/
structure WellFormed (log : TransactionLog) : Prop where
  ascending : log.entries.Pairwise fun earlier later => earlier.id.number < later.id.number
  allocated : ∀ transaction ∈ log.entries, transaction.id.number < log.nextNumber
  committed : ∀ transaction ∈ log.entries, transaction.state = .committed

theorem wellFormed_empty : WellFormed .empty :=
  ⟨.nil, fun _ member => absurd member List.not_mem_nil,
    fun _ member => absurd member List.not_mem_nil⟩

/-! ## Placing an entry -/

theorem mem_place {placed transaction : Transaction} {entries : List Transaction}
    (member : transaction ∈ place placed entries) :
    transaction = placed ∨ transaction ∈ entries := by
  induction entries with
  | nil => exact .inl (List.mem_singleton.mp member)
  | cons head tail inductionHypothesis =>
    unfold place at member
    split at member
    · rcases List.mem_cons.mp member with rfl | later
      · exact .inr (List.mem_cons_self ..)
      · exact (inductionHypothesis later).imp_right (List.mem_cons_of_mem head)
    · split at member
      · exact (List.mem_cons.mp member).imp_right (List.mem_cons_of_mem head)
      · exact List.mem_cons.mp member

theorem ascending_place (placed : Transaction) {entries : List Transaction}
    (ascending : entries.Pairwise fun earlier later => earlier.id.number < later.id.number) :
    (place placed entries).Pairwise fun earlier later =>
      earlier.id.number < later.id.number := by
  induction entries with
  | nil => exact List.pairwise_singleton ..
  | cons head tail inductionHypothesis =>
    obtain ⟨smallest, rest⟩ := List.pairwise_cons.mp ascending
    unfold place
    split
    · rename_i before
      refine List.pairwise_cons.mpr ⟨?_, inductionHypothesis rest⟩
      intro later member
      rcases mem_place member with rfl | old
      · exact before
      · exact smallest later old
    · rename_i notBefore
      split
      · rename_i same
        exact List.pairwise_cons.mpr ⟨same ▸ smallest, rest⟩
      · rename_i different
        have after : placed.id.number < head.id.number := by
          have distinct : head.id.number ≠ placed.id.number := fun equal =>
            different (congrArg TransactionId.mk equal)
          omega
        refine List.pairwise_cons.mpr ⟨?_, ascending⟩
        intro later member
        rcases List.mem_cons.mp member with rfl | old
        · exact after
        · exact Nat.lt_trans after (smallest later old)

/-- An entry with a new number is placed behind all others. -/
theorem place_newest {placed : Transaction} {entries : List Transaction}
    (newest : ∀ earlier ∈ entries, earlier.id.number < placed.id.number) :
    place placed entries = entries ++ [placed] := by
  induction entries with
  | nil => rfl
  | cons head tail inductionHypothesis =>
    rw [List.forall_mem_cons] at newest
    rw [place, if_pos newest.1, inductionHypothesis newest.2, List.cons_append]

/-- A placed entry is found, and the look-up of any other entry is the same. -/
theorem find?_place (placed : Transaction) (entries : List Transaction) (id : TransactionId) :
    (place placed entries).find? (fun transaction => transaction.id = id) =
      if placed.id = id then some placed
      else entries.find? fun transaction => transaction.id = id := by
  induction entries with
  | nil => by_cases same : placed.id = id <;> simp [place, same]
  | cons head tail inductionHypothesis =>
    unfold place
    by_cases before : head.id.number < placed.id.number
    · rw [if_pos before]
      by_cases here : head.id = id
      · have other : placed.id ≠ id := by
          rintro rfl
          rw [here] at before
          exact Nat.lt_irrefl _ before
        simp [here, other]
      · simp [here, inductionHypothesis]
    · rw [if_neg before]
      by_cases replaced : head.id = placed.id
      · rw [if_pos replaced]
        by_cases same : placed.id = id <;> simp [same, replaced]
      · rw [if_neg replaced]
        by_cases same : placed.id = id <;> simp [same]

/-! ## Erasing -/

theorem WellFormed.erase {log : TransactionLog} (wellFormed : log.WellFormed)
    (id : TransactionId) : (log.erase id).WellFormed where
  ascending := wellFormed.ascending.sublist List.filter_sublist
  allocated transaction member := wellFormed.allocated transaction (List.mem_filter.mp member |>.1)
  committed transaction member := wellFormed.committed transaction (List.mem_filter.mp member |>.1)

theorem get?_eq_none_iff {log : TransactionLog} {id : TransactionId} :
    log.get? id = none ↔ ∀ transaction ∈ log.entries, transaction.id ≠ id := by
  simp [get?, List.find?_eq_none]

theorem mem_of_get? {log : TransactionLog} {id : TransactionId} {transaction : Transaction}
    (found : log.get? id = some transaction) : transaction ∈ log.entries :=
  List.mem_of_find?_eq_some found

theorem id_of_get? {log : TransactionLog} {id : TransactionId} {transaction : Transaction}
    (found : log.get? id = some transaction) : transaction.id = id := by
  have test := List.find?_some found
  simpa using test

theorem contains_iff {log : TransactionLog} {id : TransactionId} :
    log.contains id = true ↔ ∃ transaction ∈ log.entries, transaction.id = id := by
  simp [contains, get?]

/-- A look-up after an entry is placed. -/
theorem get?_place (placed : Transaction) (log : TransactionLog) (id : TransactionId) :
    { log with entries := place placed log.entries }.get? id =
      if placed.id = id then some placed else log.get? id :=
  find?_place placed log.entries id

theorem contains_place (placed : Transaction) (log : TransactionLog) (id : TransactionId) :
    { log with entries := place placed log.entries }.contains id =
      (decide (placed.id = id) || log.contains id) := by
  unfold contains
  rw [get?_place]
  by_cases same : placed.id = id <;> simp [same]

/-- A look-up after an entry is erased. -/
theorem get?_erase (log : TransactionLog) (id other : TransactionId) :
    (log.erase id).get? other = if other = id then none else log.get? other := by
  unfold get? erase
  rw [List.find?_filter]
  by_cases same : other = id
  · subst same
    rw [if_pos rfl, List.find?_eq_none]
    intro transaction _
    simp
  · rw [if_neg same]
    congr 1
    funext transaction
    by_cases here : transaction.id = other <;> simp [here, same]

end IncrementalC.TransactionLog
