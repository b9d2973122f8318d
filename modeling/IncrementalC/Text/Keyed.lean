/-!
Contract: lists of values under names.

Owns: finding the value of a name, and setting it. A name that is set again keeps its
place in the list.

Does not own: what is listed.
-/

namespace IncrementalC

/-- Values under names, in the order in which the names were first set. -/
abbrev Keyed (α : Type) : Type := List (String × α)

namespace Keyed

/-- The value under a name. -/
def get? {α : Type} (entries : Keyed α) (name : String) : Option α :=
  (entries.find? fun entry => entry.1 = name).map Prod.snd

/-- Sets the value under a name. -/
def set {α : Type} (name : String) (value : α) : Keyed α → Keyed α
  | [] => [(name, value)]
  | entry :: rest =>
    if entry.1 = name then (name, value) :: rest else entry :: set name value rest

/-- Removes a name. -/
def erase {α : Type} (entries : Keyed α) (name : String) : Keyed α :=
  entries.filter fun entry => entry.1 ≠ name

@[simp] theorem get?_nil {α : Type} (name : String) : get? ([] : Keyed α) name = none := rfl

/-- Setting a name changes what is found under that name only. -/
theorem get?_set {α : Type} (entries : Keyed α) (name other : String) (value : α) :
    get? (set name value entries) other = if other = name then some value else get? entries other := by
  induction entries with
  | nil =>
    by_cases same : other = name
    · simp [set, get?, same]
    · simp [set, get?, same, Ne.symm same]
  | cons entry rest inductionHypothesis =>
    by_cases found : entry.1 = name
    · by_cases same : other = name
      · simp [set, get?, found, same]
      · have differs : ¬ name = other := fun equal => same equal.symm
        simp [set, get?, found, same, differs]
    · by_cases here : entry.1 = other
      · have differs : other ≠ name := fun equal => found (here.trans equal)
        simp [set, get?, here, differs]
      · simpa [set, get?, found, here] using inductionHypothesis

end Keyed

end IncrementalC
