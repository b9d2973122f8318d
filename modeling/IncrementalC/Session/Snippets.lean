import IncrementalC.Session.Submission

/-!
Contract: running a list of inputs in a session of their own.

Owns: the values of the inputs, and what stops the list.

Does not own: what becomes of one input.
-/

namespace IncrementalC

/-- What stops a list of snippets; snippets are counted from zero. -/
inductive SnippetFailure where
  | incomplete (index : Nat)
  | failed (index : Nat) (diagnostics : List Diagnostic)
  | didNotRun (index : Nat) (result : ExecutionResult)
  | brokeDown (breakdown : Breakdown)
deriving DecidableEq, Repr

/-- The wording of what stops a list. -/
def SnippetFailure.message : SnippetFailure → String
  | .incomplete index => "snippet " ++ toString index ++ " is incomplete"
  | .failed index diagnostics =>
    "snippet " ++ toString index ++ " failed: " ++
      String.intercalate "; " (diagnostics.map Diagnostic.render)
  | .didNotRun index result =>
    "snippet " ++ toString index ++ " did not run: " ++ result.describe
  | .brokeDown breakdown => breakdown.message

namespace Session

/-- What an outcome says against going on with the next snippet. -/
def snippetFailure? (index : Nat) (outcome : Outcome) : Option SnippetFailure :=
  match outcome.verdict with
  | .moreInputExpected => some (.incomplete index)
  | .failure => some (.failed index outcome.diagnostics)
  | .success =>
    match outcome.execution with
    | none | some .success => none
    | some result => some (.didNotRun index result)

/-- Runs snippets in order and yields the value of each. -/
def runSnippetsFrom (session : Session) (index : Nat) :
    List String → Except SnippetFailure (List (Option Value))
  | [] => .ok []
  | snippet :: rest =>
    match process snippet session with
    | .error breakdown => .error (.brokeDown breakdown)
    | .ok (outcome, after) =>
      match snippetFailure? index outcome with
      | some failure => .error failure
      | none => (runSnippetsFrom after (index + 1) rest).map (outcome.value :: ·)

end Session

/-- Runs snippets in a new session and yields the value of each. -/
def runSnippets (snippets : List String) : Except SnippetFailure (List (Option Value)) :=
  (Session.new .standard .sharedObjects []).runSnippetsFrom 0 snippets

end IncrementalC
