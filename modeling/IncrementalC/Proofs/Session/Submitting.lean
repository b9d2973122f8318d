import IncrementalC.Proofs.Session.Chunks
import IncrementalC.Proofs.Session.Placement

/-!
Contract: the ways that submitted text goes.

Text is placed in a function and run, or is compiled as it is, or waits to be placed. What was
waiting to be placed is taken out first, and goes in front of the text. So what holds of these
three ways holds of every submission.

Owns: which text a submission places in a function, and the three ways.

Does not own: what comes of placing and compiling.
-/

namespace IncrementalC.Session

variable {session : Session} {submission : Submission} {text whole : String} {mode : InputMode}

/-! ## The text that is placed -/

/-- What a submission places in a function if it has to: text that waits to be placed, with the new
text behind it. While a transaction waits, nothing is. -/
def offered? (session : Session) (submission : Submission) (text : String) :
    Option (InputMode × String) :=
  match session.buffer with
  | some waiting => some (waiting.mode, Input.joinContinuation waiting.text text)
  | none =>
    if session.compiler.opened.isSome then none
    else submission.wrapping?.map fun mode => (mode, text)

/-- Whether text has to be placed in a function to be compiled. -/
def mustPlace (session : Session) (text : String) : Bool :=
  !session.config.rawInput && Input.needsWrapping text.toList

/-- The purpose and the text that a submission places in a function, if it does so. -/
def placing? (session : Session) (submission : Submission) (text : String) :
    Option (InputMode × String) :=
  (session.offered? submission text).filter fun offered =>
    session.mustPlace offered.2 && Input.isComplete offered.2.toList

theorem submitWrapped_of_plain (plain : session.mustPlace text = false) :
    submitWrapped mode text session = compileAndRun text .execution none session := by
  rw [mustPlace, Bool.and_eq_false_iff] at plain
  rw [submitWrapped_eq, if_pos (by simpa using plain)]

theorem submitWrapped_of_mustPlace (needed : session.mustPlace text = true) :
    submitWrapped mode text session =
      if Input.isComplete text.toList then runWrapped mode text session
      else .ok (.buffered, { session with buffer := some ⟨mode, text⟩ }) := by
  rw [mustPlace, Bool.and_eq_true] at needed
  rw [submitWrapped_eq, if_neg (by simpa using needed)]

/-- Offered text that has to be placed in a function is taken as such. -/
theorem run_of_offered (offered : session.offered? submission text = some (mode, whole))
    (needed : session.mustPlace whole = true) :
    submission.run text session = submitWrapped mode whole { session with buffer := none } := by
  unfold offered? at offered
  split at offered
  · next waiting buffered =>
    obtain ⟨rfl, rfl⟩ := Prod.mk.inj (Option.some.inj offered)
    have taken := @run_buffered { session with buffer := none } rfl submission waiting.mode
      waiting.text text
    rwa [show { session with buffer := some waiting } = session by rw [← buffered]] at taken
  · next unbuffered =>
    split at offered
    · cases offered
    · next unopened =>
      obtain ⟨_, purpose, same⟩ := Option.map_eq_some_iff.mp offered
      obtain ⟨rfl, rfl⟩ := Prod.mk.inj same
      have fresh : session.isContinuing = false :=
        isContinuing_eq_false_iff.mpr ⟨unbuffered, by simpa using unopened⟩
      have wraps : session.wraps submission text = true := by
        rw [wraps, purpose, Bool.and_assoc, ← mustPlace, needed]
        rfl
      obtain ⟨_, same, ran⟩ := run_wrapped fresh wraps
      obtain rfl := Option.some.inj (same.symm.trans purpose)
      rwa [show { session with buffer := none } = session by rw [← unbuffered]]

theorem run_of_placing (placing : session.placing? submission text = some (mode, whole)) :
    submission.run text session = runWrapped mode whole { session with buffer := none } := by
  obtain ⟨offered, chosen⟩ := Option.filter_eq_some_iff.mp placing
  obtain ⟨needed, complete⟩ := Bool.and_eq_true_iff.mp chosen
  have taken := @submitWrapped_of_mustPlace { session with buffer := none } whole mode needed
  exact (run_of_offered offered needed).trans (taken.trans (if_pos complete))

/-- If nothing that is offered has to be placed, text is compiled as it is. -/
theorem run_of_plain (plain : ∀ offered, session.offered? submission text = some offered →
      session.mustPlace offered.2 = false) :
    ∃ chunk options, submission.run text session =
      compileAndRun chunk options none { session with buffer := none } := by
  cases buffered : session.buffer with
  | some waiting =>
    have plain := plain (waiting.mode, _) (by rw [offered?, buffered])
    have taken := @run_buffered { session with buffer := none } rfl submission waiting.mode
      waiting.text text
    rw [show { session with buffer := some waiting } = session by rw [← buffered]] at taken
    exact ⟨_, _, taken.trans (submitWrapped_of_plain plain)⟩
  | none =>
    rw [show { session with buffer := none } = session by rw [← buffered]]
    by_cases opened : session.compiler.opened.isSome = true
    · exact ⟨_, _, run_opened buffered opened submission text⟩
    · have fresh : session.isContinuing = false :=
        isContinuing_eq_false_iff.mpr ⟨buffered, by simpa using opened⟩
      have unwrapped : session.wraps submission text = false := by
        by_contra wraps
        rw [Bool.not_eq_false, Session.wraps, Bool.and_assoc, Bool.and_eq_true] at wraps
        obtain ⟨mode, purpose⟩ := Option.isSome_iff_exists.mp wraps.1
        have plain := plain (mode, text) (by rw [offered?, buffered, if_neg opened, purpose]; rfl)
        exact Bool.false_ne_true (plain.symm.trans wraps.2)
      exact ⟨_, _, run_unwrapped fresh unwrapped⟩

/-- Text that is not placed is compiled as it is, or waits to be placed. -/
theorem run_of_not_placing (placing : session.placing? submission text = none) :
    (∃ chunk options, submission.run text session =
      compileAndRun chunk options none { session with buffer := none }) ∨
    ∃ waiting, submission.run text session =
      .ok (.buffered, { session with buffer := some waiting }) := by
  by_cases plain : ∀ offered, session.offered? submission text = some offered →
      session.mustPlace offered.2 = false
  · exact .inl (run_of_plain plain)
  · push Not at plain
    obtain ⟨⟨mode, whole⟩, offered, needed⟩ := plain
    have needed : session.mustPlace whole = true := by simpa using needed
    have unfinished : ¬Input.isComplete whole.toList = true := by
      intro complete
      have placed : session.placing? submission text = some (mode, whole) :=
        Option.filter_eq_some_iff.mpr ⟨offered, by rw [needed, complete]; rfl⟩
      rw [placing] at placed
      cases placed
    have taken := @submitWrapped_of_mustPlace { session with buffer := none } whole mode needed
    exact .inr ⟨_, (run_of_offered offered needed).trans (taken.trans (if_neg unfinished))⟩

/-! ## The three ways -/

/-- What a submission comes to is what one of the three ways comes to. -/
theorem run_ends {holds : Outcome → Session → Prop}
    (placed : ∀ mode whole, session.placing? submission text = some (mode, whole) →
      Ends (runWrapped mode whole) { session with buffer := none } holds)
    (compiled : session.placing? submission text = none → ∀ chunk options,
      Ends (compileAndRun chunk options none) { session with buffer := none } holds)
    (waits : ∀ waiting, holds .buffered { session with buffer := some waiting }) :
    Ends (submission.run text) session holds := by
  intro outcome after ran
  cases placing : session.placing? submission text with
  | some chosen =>
    exact placed chosen.1 chosen.2 placing outcome after ((run_of_placing placing).symm.trans ran)
  | none =>
    rcases run_of_not_placing placing with ⟨chunk, options, same⟩ | ⟨waiting, same⟩
    · exact compiled placing chunk options outcome after (same.symm.trans ran)
    · cases same.symm.trans ran
      exact waits waiting

theorem unopened_of_placing (apart : session.Apart)
    (placing : session.placing? submission text = some (mode, whole)) :
    session.compiler.opened = none := by
  have offered := (Option.filter_eq_some_iff.mp placing).1
  unfold offered? at offered
  split at offered
  · next buffered => exact apart (by rw [buffered]; rfl)
  · split at offered
    · cases offered
    · next unopened => simpa using unopened

theorem isComplete_of_placing (placing : session.placing? submission text = some (mode, whole)) :
    Input.isComplete whole.toList = true :=
  (Bool.and_eq_true_iff.mp (Option.filter_eq_some_iff.mp placing).2).2

end IncrementalC.Session
