import Mathlib.Data.List.Nodup
import IncrementalC.Input.Wrapping

/-!
Contract: generated names are fresh for ever.

A wrapper hands out generated names, by themselves or for the function around input. In
front of input it goes on until a name is not taken; which names are taken is a question
it asks, and each time the answer is yes for finitely many names only.

Owns:
- the names that a supply hands out, by their numbers;
- the search for a name that is not taken, and that it ends;
- that whatever is asked in whatever order, no name is handed out twice, every name has the
  shape of a generated one, and the name of a function is not taken.

Does not own: which names are declared, or the text around input.
-/

namespace IncrementalC.Input

/-! ## Numbered names -/

/-- The generated name with a number. -/
def generatedName (number : Nat) : String := generatedStem ++ toString number

theorem digits_injective {number other : Nat}
    (same : (toString number).toList = (toString other).toList) : number = other := by
  simp only [Nat.toString_eq_repr, Nat.toList_repr] at same
  simpa using congrArg (Nat.ofDigitChars 10 · 0) same

/-- The stem ends in a digit, but it is as long in front of every number. -/
theorem generatedName_injective {number other : Nat}
    (same : generatedName number = generatedName other) : number = other := by
  have characters := congrArg String.toList same
  rw [generatedName, generatedName, String.toList_append, String.toList_append] at characters
  exact digits_injective (List.append_cancel_left characters)

theorem isGeneratedName_generatedName (number : Nat) :
    isGeneratedName (generatedName number) = true := by
  have behind : (generatedName number).toList.drop generatedStem.toList.length =
      Nat.toDigits 10 number := by
    rw [generatedName, String.toList_append, List.drop_left, Nat.toString_eq_repr,
      Nat.toList_repr]
  have stem : generatedStem.toList.isPrefixOf (generatedName number).toList = true := by
    rw [generatedName, String.toList_append]
    exact List.isPrefixOf_iff_prefix.mpr (List.prefix_append _ _)
  unfold isGeneratedName
  dsimp only
  rw [behind, stem, Bool.true_and, Bool.and_eq_true, Bool.not_eq_true', List.isEmpty_eq_false_iff,
    List.all_eq_true]
  exact ⟨Nat.toDigits_ne_nil, fun digit member =>
    Nat.isDigit_of_mem_toDigits (by decide) (by decide) member⟩

namespace NameSupply

/-! ## The search for a free name -/

/-- A name is handed out until one is not taken. -/
inductive Searches (isTaken : String → Bool) : NameSupply → String → NameSupply → Prop where
  | free {supply : NameSupply} (free : isTaken supply.reserve.1 = false) :
      Searches isTaken supply supply.reserve.1 supply.reserve.2
  | again {supply after : NameSupply} {name : String} (taken : isTaken supply.reserve.1 = true)
      (rest : Searches isTaken supply.reserve.2 name after) : Searches isTaken supply name after

section

variable {isTaken : String → Bool} {supply after : NameSupply} {name : String}

theorem Searches.notTaken (searches : Searches isTaken supply name after) :
    isTaken name = false := by
  induction searches with
  | free free => exact free
  | again _ _ inductionHypothesis => exact inductionHypothesis

/-- The name that is found has the last number that was handed out. -/
theorem Searches.number (searches : Searches isTaken supply name after) :
    ∃ number, supply.issued ≤ number ∧ after.issued = number + 1 ∧
      name = generatedName number := by
  induction searches with
  | free => exact ⟨_, Nat.le_refl _, rfl, rfl⟩
  | again _ _ inductionHypothesis =>
    obtain ⟨number, later, last, named⟩ := inductionHypothesis
    exact ⟨number, Nat.le_of_succ_le later, last, named⟩

/-- The search comes to one name only. -/
theorem Searches.unique {other : String} {otherAfter : NameSupply}
    (searches : Searches isTaken supply name after)
    (others : Searches isTaken supply other otherAfter) : other = name ∧ otherAfter = after := by
  induction searches with
  | free free =>
    cases others with
    | free _ => exact ⟨rfl, rfl⟩
    | again taken _ => exact absurd (taken.symm.trans free) (by decide)
  | again taken _ inductionHypothesis =>
    cases others with
    | free free => exact absurd (taken.symm.trans free) (by decide)
    | again _ rest => exact inductionHypothesis rest

end

/-- Among more names than are taken one is free. -/
theorem exists_free (start : Nat) (taken : List String) :
    ∃ further ≤ taken.length, generatedName (start + further) ∉ taken := by
  by_contra none
  have taken_of_le : ∀ further ≤ taken.length, generatedName (start + further) ∈ taken :=
    fun further within => by_contra fun free => none ⟨further, within, free⟩
  have injective : Function.Injective fun further => generatedName (start + further) :=
    fun _ _ same => Nat.add_left_cancel (generatedName_injective same)
  have distinct := (List.nodup_range (n := taken.length + 1)).map injective
  have subset : (List.range (taken.length + 1)).map (fun further =>
      generatedName (start + further)) ⊆ taken := by
    intro name member
    obtain ⟨further, inRange, rfl⟩ := List.mem_map.mp member
    exact taken_of_le further (Nat.lt_succ_iff.mp (List.mem_range.mp inRange))
  have fits := distinct.length_le_of_subset subset
  rw [List.length_map, List.length_range] at fits
  exact Nat.not_succ_le_self _ fits

/-- Attempts that reach a free name are a search. -/
theorem reserveUntil_searches {isTaken : String → Bool} {taken : List String}
    (rejects : ∀ name, isTaken name = true ↔ name ∈ taken) {attempts : Nat} {supply : NameSupply}
    (free : ∃ further ≤ attempts, generatedName (supply.issued + further) ∉ taken) :
    Searches isTaken supply (supply.reserveUntil taken attempts).1
      (supply.reserveUntil taken attempts).2 := by
  induction attempts generalizing supply with
  | zero =>
    obtain ⟨further, none, notTaken⟩ := free
    obtain rfl := Nat.le_zero.mp none
    exact .free (Bool.eq_false_iff.mpr (mt (rejects _).mp notTaken))
  | succ attempts inductionHypothesis =>
    rw [reserveUntil]
    split
    · next taken =>
      refine .again ((rejects _).mpr taken) (inductionHypothesis ?_)
      obtain ⟨further, within, notTaken⟩ := free
      cases further with
      | zero => exact absurd taken notTaken
      | succ further =>
        refine ⟨further, Nat.le_of_succ_le_succ within, ?_⟩
        rw [show supply.reserve.2.issued + further = supply.issued + (further + 1) from
          Nat.succ_add_eq_add_succ _ _]
        exact notTaken
    · next notTaken => exact .free (Bool.eq_false_iff.mpr (mt (rejects _).mp notTaken))

end NameSupply

/-! ## What is asked of a wrapper -/

/-- What can be asked of a wrapper. -/
inductive WrapperRequest where
  | reserve
  /-- The names that are taken are listed by `taken`: there are finitely many. -/
  | wrap (text : String) (kind : WrapKind) (isTaken : String → Bool) (taken : List String)
      (rejects : ∀ name, isTaken name = true ↔ name ∈ taken)

/-- The name that is handed out for a request, with the supply before and behind. -/
structure Issue where
  request : WrapperRequest
  before : NameSupply
  name : String
  after : NameSupply

namespace NameSupply

/-- Serves a request. -/
def serve (supply : NameSupply) (request : WrapperRequest) : Issue :=
  match request with
  | .reserve => ⟨request, supply, supply.reserve.1, supply.reserve.2⟩
  | .wrap text kind _ taken _ =>
    let (wrapped, after) := wrap supply text.toList kind taken
    ⟨request, supply, wrapped.entry, after⟩

/-- Serves requests one after the other. -/
def serveAll : NameSupply → List WrapperRequest → List Issue
  | _, [] => []
  | supply, request :: requests =>
    supply.serve request :: serveAll (supply.serve request).after requests

end NameSupply

/-- What was handed out is what was asked for: the next name, or the name that the search
for one that is not taken comes to. -/
def Issue.Settles (issue : Issue) : Prop :=
  match issue.request with
  | .reserve => (issue.name, issue.after) = issue.before.reserve
  | .wrap _ _ isTaken _ _ =>
    isTaken issue.name = false ∧ issue.before.Searches isTaken issue.name issue.after

namespace NameSupply

theorem serve_settles (supply : NameSupply) (request : WrapperRequest) :
    (supply.serve request).Settles := by
  cases request with
  | reserve => rfl
  | wrap text kind isTaken taken rejects =>
    have searches : supply.Searches isTaken _ _ :=
      reserveUntil_searches rejects (exists_free supply.issued taken)
    exact ⟨searches.notTaken, searches⟩

/-- A name that is handed out has a number between what was handed out before and what is
handed out later. -/
theorem serve_number (supply : NameSupply) (request : WrapperRequest) :
    ∃ number, supply.issued ≤ number ∧ number < (supply.serve request).after.issued ∧
      (supply.serve request).name = generatedName number := by
  have settles := supply.serve_settles request
  cases request with
  | reserve => exact ⟨supply.issued, Nat.le_refl _, Nat.lt_succ_self _, rfl⟩
  | wrap text kind isTaken taken rejects =>
    obtain ⟨number, later, last, named⟩ := settles.2.number
    exact ⟨number, later, last ▸ Nat.lt_succ_self number, named⟩

theorem serveAll_number {supply : NameSupply} {requests : List WrapperRequest} {issue : Issue}
    (member : issue ∈ supply.serveAll requests) :
    issue.Settles ∧ ∃ number, supply.issued ≤ number ∧ issue.name = generatedName number := by
  induction requests generalizing supply with
  | nil => cases member
  | cons request requests inductionHypothesis =>
    obtain ⟨number, later, further, named⟩ := supply.serve_number request
    rcases List.mem_cons.mp member with rfl | member
    · exact ⟨supply.serve_settles request, number, later, named⟩
    · obtain ⟨settles, other, latest, othersName⟩ := inductionHypothesis member
      exact ⟨settles, other, by omega, othersName⟩

theorem nodup_serveAll (supply : NameSupply) (requests : List WrapperRequest) :
    ((supply.serveAll requests).map Issue.name).Nodup := by
  induction requests generalizing supply with
  | nil => exact .nil
  | cons request requests inductionHypothesis =>
    refine List.nodup_cons.mpr ⟨fun again => ?_, inductionHypothesis _⟩
    obtain ⟨issue, member, same⟩ := List.mem_map.mp again
    obtain ⟨-, other, latest, othersName⟩ := serveAll_number member
    obtain ⟨number, -, further, named⟩ := supply.serve_number request
    obtain rfl := generatedName_injective (othersName.symm.trans (same.trans named))
    omega

theorem map_request_serveAll (supply : NameSupply) (requests : List WrapperRequest) :
    (supply.serveAll requests).map Issue.request = requests := by
  induction requests generalizing supply with
  | nil => rfl
  | cons request requests inductionHypothesis =>
    refine congrArg₂ List.cons ?_ (inductionHypothesis _)
    cases request <;> rfl

/-- However names and functions around input are asked for in turn, each request is served,
each function has a name that is not taken, no name is handed out twice, and all have the
shape of a generated name. -/
theorem generated_names_are_fresh_for_ever (supply : NameSupply)
    (requests : List WrapperRequest) :
    (supply.serveAll requests).map Issue.request = requests ∧
      ((supply.serveAll requests).map Issue.name).Nodup ∧
      ∀ issue ∈ supply.serveAll requests, issue.Settles ∧ isGeneratedName issue.name = true := by
  refine ⟨supply.map_request_serveAll requests, supply.nodup_serveAll requests,
    fun issue member => ?_⟩
  obtain ⟨settles, number, -, named⟩ := serveAll_number member
  exact ⟨settles, named ▸ isGeneratedName_generatedName number⟩

end NameSupply

end IncrementalC.Input
