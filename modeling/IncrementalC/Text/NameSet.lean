/-!
Contract: sets of names, kept in ascending order.

A set is the list of its names without repetition, ordered by code points. Main
statements: insertion adds exactly the name it is given, and keeps the order strict.
-/

namespace IncrementalC

/-- A set of names, listed in ascending order. -/
abbrev NameSet : Type := List String

namespace NameSet

def insert (name : String) : NameSet → NameSet
  | [] => [name]
  | head :: tail =>
    if name < head then name :: head :: tail
    else if name = head then head :: tail
    else head :: insert name tail

/-- The set with several more names. -/
def insertAll (names : List String) (set : NameSet) : NameSet :=
  names.foldl (fun set name => insert name set) set

def ofNames (names : List String) : NameSet := insertAll names []

/-- Insertion adds exactly the name it is given. -/
theorem mem_insert {name other : String} {set : NameSet} :
    other ∈ insert name set ↔ other = name ∨ other ∈ set := by
  induction set with
  | nil => simp [insert]
  | cons head tail inductionHypothesis =>
    simp only [insert]
    split
    · simp
    · split
      · rename_i equal
        subst equal
        simp
      · simp only [List.mem_cons, inductionHypothesis]
        constructor
        · rintro (h | h | h) <;> simp [h]
        · rintro (h | h | h) <;> simp [h]

theorem mem_insertAll {names : List String} {other : String} {set : NameSet} :
    other ∈ insertAll names set ↔ other ∈ names ∨ other ∈ set := by
  induction names generalizing set with
  | nil => simp [insertAll]
  | cons head tail inductionHypothesis =>
    have step : insertAll (head :: tail) set = insertAll tail (insert head set) := rfl
    rw [step, inductionHypothesis, mem_insert]
    simp only [List.mem_cons]
    constructor
    · rintro (h | h | h) <;> simp [h]
    · rintro ((h | h) | h) <;> simp [h]

/-- A set of names has exactly the names of the list it is made from. -/
theorem mem_ofNames {names : List String} {other : String} :
    other ∈ ofNames names ↔ other ∈ names := by
  simp [ofNames, mem_insertAll]

/-- Insertion keeps the order strict. -/
theorem ascending_insert {name : String} {set : NameSet} (ascending : set.Pairwise (· < ·)) :
    (insert name set).Pairwise (· < ·) := by
  induction set with
  | nil => exact List.pairwise_singleton _ _
  | cons head tail inductionHypothesis =>
    obtain ⟨above, tailAscending⟩ := List.pairwise_cons.mp ascending
    simp only [insert]
    split
    · next smaller =>
      refine List.pairwise_cons.mpr ⟨?_, ascending⟩
      intro other member
      rcases List.mem_cons.mp member with rfl | later
      · exact smaller
      · exact String.lt_trans smaller (above other later)
    · next notSmaller =>
      split
      · exact ascending
      · next differs =>
        refine List.pairwise_cons.mpr ⟨?_, inductionHypothesis tailAscending⟩
        intro other member
        rcases mem_insert.mp member with rfl | later
        · apply Decidable.byContradiction
          intro notLarger
          exact differs
            (String.le_antisymm (String.not_lt.mp notLarger) (String.not_lt.mp notSmaller))
        · exact above other later

theorem ascending_insertAll {names : List String} {set : NameSet}
    (ascending : set.Pairwise (· < ·)) : (insertAll names set).Pairwise (· < ·) := by
  induction names generalizing set with
  | nil => exact ascending
  | cons head tail inductionHypothesis => exact inductionHypothesis (ascending_insert ascending)

end NameSet

end IncrementalC
