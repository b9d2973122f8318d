import IncrementalC.Proofs.Token.Continuation

/-!
Contract: the tokens of a text that is cut out and placed further down.

Which tokens a text has depends on its characters alone, and the place at which it starts only
moves them. The last character of a text changes the tokens before it only if it continues one
of them, and not even that if it is white space.

Owns:
- places that are moved, and the tokens of a text that starts at a moved place;
- the tokens of a text without its last character, or without the white space it ends in.

Does not own: what stands in front of the text, or what the tokens spell.
-/

namespace IncrementalC

/-! ## Places -/

/-- The place that a place has behind whole lines which hold so many bytes. -/
def Position.below (lines bytes : Nat) (position : Position) : Position :=
  ⟨position.line + lines, position.column, position.offset + bytes⟩

/-- A span between moved places. -/
def Span.moved (move : Position → Position) (span : Span) : Span :=
  ⟨move span.start, move span.stop⟩

theorem Span.moved_through (move : Position → Position) (first last : Span) :
    (first.through last).moved move = (first.moved move).through (last.moved move) := rfl

/-- A token at a moved place. -/
def Token.moved (move : Position → Position) (token : Token) : Token :=
  ⟨token.lexeme, token.span.moved move⟩

/-- Reading on from a moved place leads to the moved place. -/
def Carries (move : Position → Position) : Prop :=
  ∀ position character, move (position.advance character) = (move position).advance character

theorem carries_below (lines bytes : Nat) : Carries (Position.below lines bytes) := by
  intro position character
  unfold Position.below Position.advance
  split <;> simp only [Position.mk.injEq, true_and] <;> omega

theorem Carries.advanceAll {move : Position → Position} (carries : Carries move)
    (position : Position) (characters : List Char) :
    move (position.advanceAll characters) = (move position).advanceAll characters := by
  induction characters generalizing position with
  | nil => rfl
  | cons head rest inductionHypothesis =>
    rw [Position.advanceAll_cons, Position.advanceAll_cons, inductionHypothesis, carries]

theorem Position.offset_advance (position : Position) (character : Char) :
    (position.advance character).offset = position.offset + character.utf8Size := by
  unfold advance
  split <;> rfl

theorem Position.offset_le_advanceAll (position : Position) (characters : List Char) :
    position.offset ≤ (position.advanceAll characters).offset := by
  induction characters generalizing position with
  | nil => exact Nat.le_refl _
  | cons head rest inductionHypothesis =>
    refine Nat.le_trans ?_ (inductionHypothesis (position.advance head))
    rw [offset_advance]
    exact Nat.le_add_right ..

/-- Only reading nothing leads nowhere. -/
theorem Position.eq_nil_of_advanceAll {position : Position} {characters : List Char}
    (same : position.advanceAll characters = position) : characters = [] := by
  cases characters with
  | nil => rfl
  | cons head rest =>
    have further := offset_le_advanceAll (position.advance head) rest
    rw [← advanceAll_cons, same, offset_advance] at further
    have size := head.utf8Size_pos
    omega

/-! ## Texts that start elsewhere -/

/-- The cursor in the text that starts at a moved place. -/
def Cursor.moved (move : Position → Position) (cursor : Cursor) : Cursor :=
  ⟨cursor.rest, move cursor.position⟩

theorem Cursor.advance_moved {move : Position → Position} (carries : Carries move)
    (cursor : Cursor) (count : Nat) :
    (cursor.moved move).advance count = (cursor.advance count).moved move := by
  simp only [advance, moved, carries.advanceAll]

/-- What stops the reading at a moved place. -/
def SourceError.moved (move : Position → Position) : SourceError → SourceError
  | .incomplete => .incomplete
  | .invalid diagnostic => .invalid { diagnostic with span := diagnostic.span.moved move }

/-- A text that starts at a moved place has the same tokens, moved, or what stops the reading is
moved. -/
theorem tokensFrom_moved {move : Position → Position} (carries : Carries move) (cursor : Cursor) :
    tokensFrom (cursor.moved move) =
      match tokensFrom cursor with
      | .ok tokens => .ok (tokens.map (Token.moved move))
      | .error problem => .error (problem.moved move) := by
  induction cursor using tokensFrom.induct with
  | case1 cursor unended =>
    rw [tokensFrom_of_unended unended]
    exact tokensFrom_of_unended unended
  | case2 cursor skipped trivia start blank =>
    have front := Cursor.advance_moved carries cursor skipped
    have same : triviaLength? .code (cursor.moved move).rest = some skipped := trivia
    rw [tokensFrom_of_blank trivia blank,
      tokensFrom_of_blank same (by rw [front]; exact blank), front]
    rfl
  | case3 cursor skipped trivia start first rest found outcome problem failed =>
    simp only [outcome] at failed
    have front := Cursor.advance_moved carries cursor skipped
    have same : triviaLength? .code (cursor.moved move).rest = some skipped := trivia
    rw [tokensFrom_of_more trivia found, tokensFrom_of_more same (by rw [front]; exact found),
      failed]
    dsimp only
    rw [front, Cursor.advance_moved carries]
    rfl
  | case4 cursor skipped trivia start first rest found outcome next lexeme readAs shorter
      inductionHypothesis =>
    simp only [outcome] at readAs
    have front := Cursor.advance_moved carries cursor skipped
    have same : triviaLength? .code (cursor.moved move).rest = some skipped := trivia
    rw [tokensFrom_of_more trivia found, tokensFrom_of_more same (by rw [front]; exact found),
      readAs]
    dsimp only
    rw [front, Cursor.advance_moved carries]
    refine (congrArg (Except.map _) inductionHypothesis).trans ?_
    simp only [next, start, outcome]
    cases tokensFrom ((cursor.advance skipped).advance ((readLexeme first rest).2 + 1)) <;> rfl

/-! ## The last character -/

section

variable {character : Char}

theorem triviaLength?_lineComment_cons (head : Char) (rest : List Char) :
    triviaLength? .lineComment (head :: rest) =
      if head = '\n' then (triviaLength? .code rest).map (· + 1)
      else (triviaLength? .lineComment rest).map (· + 1) := by
  rw [triviaLength?]

theorem eq_some_of_map_add {skipped : Option Nat} {length step : Nat}
    (counted : skipped.map (· + step) = some (length + step)) : skipped = some length := by
  obtain ⟨count, rfl, same⟩ := Option.map_eq_some_iff.mp counted
  exact congrArg some (Nat.add_right_cancel same)

/-- What holds behind trivia holds with more trivia in front. -/
theorem triviaLength?_concat_more {longer : Option Nat} {length : Nat} (step : Nat)
    (behind : longer = some (length + 1) ∨
      longer = (triviaLength? .code [character]).map (· + length)) :
    longer.map (· + step) = some (length + step + 1) ∨
      longer.map (· + step) = (triviaLength? .code [character]).map (· + (length + step)) := by
  refine behind.imp ?_ ?_
  · rintro rfl
    exact congrArg some (Nat.add_right_comm _ _ _)
  · rintro rfl
    rw [Option.map_map]
    exact congrArg (Option.map · _) (funext fun count => Nat.add_assoc _ _ _)

/-- Behind trivia one more character is trivia too, or it follows them. -/
theorem triviaLength?_concat {context : TriviaContext} {characters : List Char}
    (trivia : triviaLength? context characters = some characters.length) :
    triviaLength? context (characters ++ [character]) = some (characters.length + 1) ∨
      triviaLength? context (characters ++ [character]) =
        (triviaLength? .code [character]).map (· + characters.length) := by
  fun_induction triviaLength? context characters with
  | case1 =>
    right
    rw [List.nil_append, List.length_nil]
    exact Option.map_id'.symm
  | case2 rest inductionHypothesis | case3 rest inductionHypothesis =>
    rw [List.cons_append, List.cons_append, triviaLength?]
    exact triviaLength?_concat_more 2 (inductionHypothesis (eq_some_of_map_add trivia))
  | case4 head rest notLine notBlock blank inductionHypothesis =>
    have noSlash : head ≠ '/' := by
      rintro rfl
      exact absurd blank (by decide)
    rw [List.cons_append, triviaLength?_cons (fun _ slash _ => noSlash slash)
      (fun _ slash _ => noSlash slash), if_pos blank]
    exact triviaLength?_concat_more 1 (inductionHypothesis (eq_some_of_map_add trivia))
  | case5 head rest notLine notBlock blank => simp at trivia
  | case6 =>
    left
    by_cases ends : character = '\n' <;> simp [triviaLength?, ends]
  | case7 rest inductionHypothesis =>
    rw [List.cons_append, triviaLength?_lineComment_cons, if_pos rfl]
    exact triviaLength?_concat_more 1 (inductionHypothesis (eq_some_of_map_add trivia))
  | case8 head rest noBreak inductionHypothesis =>
    rw [List.cons_append, triviaLength?_lineComment_cons, if_neg noBreak]
    exact triviaLength?_concat_more 1 (inductionHypothesis (eq_some_of_map_add trivia))
  | case9 => cases trivia
  | case10 rest inductionHypothesis =>
    have ended : triviaLength? .blockComment ('*' :: '/' :: (rest ++ [character])) =
        (triviaLength? .code (rest ++ [character])).map (· + 2) := by
      rw [triviaLength?]
    rw [List.cons_append, List.cons_append, ended]
    exact triviaLength?_concat_more 2 (inductionHypothesis (eq_some_of_map_add trivia))
  | case11 head rest unended inductionHypothesis =>
    have found := eq_some_of_map_add trivia
    rw [List.cons_append, triviaLength?_blockComment_cons ?_]
    · exact triviaLength?_concat_more 1 (inductionHypothesis found)
    · rintro others rfl next
      cases rest with
      | nil => cases found
      | cons second rest => exact unended rest rfl (by rw [(List.cons.inj next).1])

/-- Only a slash can end a block comment. -/
theorem triviaLength?_concat_of_none (noSlash : character ≠ '/') {context : TriviaContext}
    {characters : List Char} (unended : triviaLength? context characters = none) :
    triviaLength? context (characters ++ [character]) = none := by
  fun_induction triviaLength? context characters with
  | case1 | case5 | case6 => cases unended
  | case2 rest inductionHypothesis | case3 rest inductionHypothesis
  | case10 rest inductionHypothesis =>
    simp only [List.cons_append, triviaLength?]
    rw [inductionHypothesis (Option.map_eq_none_iff.mp unended)]
    rfl
  | case4 head rest notLine notBlock blank inductionHypothesis =>
    have other : head ≠ '/' := by
      rintro rfl
      exact absurd blank (by decide)
    rw [List.cons_append, triviaLength?_cons (fun _ slash _ => other slash)
      (fun _ slash _ => other slash), if_pos blank,
      inductionHypothesis (Option.map_eq_none_iff.mp unended)]
    rfl
  | case7 rest inductionHypothesis =>
    simp only [List.cons_append, triviaLength?, if_true]
    rw [inductionHypothesis (Option.map_eq_none_iff.mp unended)]
    rfl
  | case8 head rest noBreak inductionHypothesis =>
    simp only [List.cons_append, triviaLength?, if_neg noBreak]
    rw [inductionHypothesis (Option.map_eq_none_iff.mp unended)]
    rfl
  | case9 =>
    rw [List.nil_append, triviaLength?_blockComment_cons fun _ _ next => by cases next]
    rfl
  | case11 head rest stays inductionHypothesis =>
    rw [List.cons_append, triviaLength?_blockComment_cons ?_,
      inductionHypothesis (Option.map_eq_none_iff.mp unended)]
    · rfl
    · rintro others rfl next
      cases rest with
      | nil => exact noSlash (List.cons.inj next).1
      | cons second rest => exact stays rest rfl (by rw [(List.cons.inj next).1])

/-- A block comment that does not end does not end with one more character either. -/
theorem tokensFrom_concat_of_incomplete (separates : Separates character)
    (noSlash : character ≠ '/') (noStar : character ≠ '*') {cursor : Cursor}
    (unended : tokensFrom cursor = .error .incomplete) :
    tokensFrom (cursor.continuedBy [character]) = .error .incomplete := by
  induction cursor using tokensFrom.induct with
  | case1 cursor comment =>
    exact tokensFrom_of_unended (triviaLength?_concat_of_none noSlash comment)
  | case2 cursor skipped trivia start blank =>
    rw [tokensFrom_of_blank trivia blank] at unended
    cases unended
  | case3 cursor skipped trivia start first rest found outcome problem failed =>
    simp only [outcome] at failed
    rw [tokensFrom_of_more trivia found, failed] at unended
    cases unended
  | case4 cursor skipped trivia start first rest found outcome next lexeme readAs shorter
      inductionHypothesis =>
    simp only [outcome] at readAs
    rw [tokensFrom_of_more trivia found, readAs] at unended
    have later := inductionHypothesis (map_eq_error_iff.mp unended)
    rw [tokensFrom_continuedBy_of_more separates trivia found fun _ _ => ⟨noSlash, noStar⟩, readAs]
    exact map_eq_error_iff.mpr later

/-- Nor does it end if such characters follow. -/
theorem tokensFrom_append_of_incomplete {more : List Char}
    (plain : ∀ character ∈ more, Separates character ∧ character ≠ '/' ∧ character ≠ '*')
    {cursor : Cursor} (unended : tokensFrom cursor = .error .incomplete) :
    tokensFrom (cursor.continuedBy more) = .error .incomplete := by
  induction more generalizing cursor with
  | nil =>
    rw [Cursor.continuedBy, List.append_nil]
    exact unended
  | cons character more inductionHypothesis =>
    obtain ⟨separates, noSlash, noStar⟩ := plain character List.mem_cons_self
    have longer := tokensFrom_concat_of_incomplete separates noSlash noStar unended
    have split : cursor.continuedBy (character :: more) =
        (cursor.continuedBy [character]).continuedBy more := by
      simp [Cursor.continuedBy]
    rw [split]
    exact inductionHypothesis (fun other member => plain other (List.mem_cons_of_mem _ member))
      longer

/-- Behind nothing but trivia a character stands in a comment, or is all there is. -/
theorem tokensFrom_concat_of_blank {cursor : Cursor} {skipped : Nat}
    (trivia : triviaLength? .code cursor.rest = some skipped)
    (blank : (cursor.advance skipped).rest = []) :
    (∃ final, final.lexeme = .endOfInput ∧
      tokensFrom (cursor.continuedBy [character]) = .ok [final]) ∨
    tokensFrom (cursor.continuedBy [character]) =
      tokensFrom ⟨[character], cursor.position.advanceAll cursor.rest⟩ := by
  have all : skipped = cursor.rest.length := by
    have ended : (cursor.advance skipped).rest.length = 0 := congrArg List.length blank
    rw [Cursor.length_rest_advance] at ended
    exact Nat.le_antisymm (triviaLength?_le trivia) (Nat.sub_eq_zero_iff_le.mp ended)
  subst all
  have behind : (cursor.continuedBy [character]).advance cursor.rest.length =
      ⟨[character], cursor.position.advanceAll cursor.rest⟩ := by
    simp [Cursor.advance, Cursor.continuedBy]
  rcases @triviaLength?_concat character _ _ trivia with comment | follows
  · left
    refine ⟨_, rfl, tokensFrom_of_blank comment ?_⟩
    simp [Cursor.advance, Cursor.continuedBy]
  · right
    rw [← behind]
    apply tokensFrom_advance
    rw [behind]
    exact follows

/-- The tokens of a text come first if a separating character follows it. Then comes the end, if
the character stands in a comment, or else what the character is. -/
theorem tokensFrom_concat (separates : Separates character) (noSlash : character ≠ '/')
    (noStar : character ≠ '*') {cursor : Cursor} {tokens : List Token}
    (read : tokensFrom cursor = .ok tokens) :
    ∃ before stop, tokens = before ++ [stop] ∧ stop.lexeme = .endOfInput ∧
      ((∃ final, final.lexeme = .endOfInput ∧
        tokensFrom (cursor.continuedBy [character]) = .ok (before ++ [final])) ∨
      tokensFrom (cursor.continuedBy [character]) =
        (tokensFrom ⟨[character], cursor.position.advanceAll cursor.rest⟩).map (before ++ ·)) := by
  induction read using tokensFrom_ok_induction with
  | stop cursor skipped trivia blank =>
    refine ⟨[], _, rfl, rfl, (tokensFrom_concat_of_blank trivia blank).imp_right fun alone => ?_⟩
    rw [alone]
    cases tokensFrom ⟨[character], _⟩ <;> rfl
  | more cursor skipped first rest lexeme others trivia found readAs start next behind
      inductionHypothesis =>
    obtain ⟨before, stop, rfl, ended, longer⟩ := inductionHypothesis
    have same : next.position.advanceAll next.rest = cursor.position.advanceAll cursor.rest :=
      (Cursor.advanceAll_rest_advance start _).trans (Cursor.advanceAll_rest_advance cursor skipped)
    rw [same] at longer
    refine ⟨_ :: before, stop, rfl, ended, ?_⟩
    rw [tokensFrom_continuedBy_of_more separates trivia found fun _ _ => ⟨noSlash, noStar⟩, readAs]
    refine longer.imp ?_ fun follows => ?_
    · rintro ⟨final, final', comment⟩
      exact ⟨final, final', congrArg (Except.map _) comment⟩
    · refine (congrArg (Except.map _) follows).trans ?_
      cases tokensFrom ⟨[character], _⟩ <;> rfl

/-- A text without its last character has the same tokens, or all of them but those of the
character. -/
theorem tokensFrom_of_concat (separates : Separates character) (noSlash : character ≠ '/')
    (noStar : character ≠ '*') {cursor : Cursor} {tokens : List Token}
    (read : tokensFrom (cursor.continuedBy [character]) = .ok tokens) :
    ∃ before stop, tokensFrom cursor = .ok (before ++ [stop]) ∧ stop.lexeme = .endOfInput ∧
      ((∃ final, final.lexeme = .endOfInput ∧ tokens = before ++ [final]) ∨
      ∃ others, tokensFrom ⟨[character], cursor.position.advanceAll cursor.rest⟩ = .ok others ∧
        tokens = before ++ others) := by
  rcases shorter : tokensFrom cursor with (_ | diagnostic) | fewer
  · cases (tokensFrom_concat_of_incomplete separates noSlash noStar shorter).symm.trans read
  · cases (tokensFrom_continuedBy_of_invalid separates shorter []).symm.trans read
  · obtain ⟨before, stop, rfl, ended, longer⟩ :=
      tokensFrom_concat separates noSlash noStar shorter
    refine ⟨before, stop, rfl, ended, longer.imp ?_ fun follows => ?_⟩
    · rintro ⟨final, ends, comment⟩
      exact ⟨final, ends, Except.ok.inj (read.symm.trans comment)⟩
    · obtain ⟨others, behind, same⟩ := map_eq_ok_iff.mp (follows.symm.trans read)
      exact ⟨others, behind, same.symm⟩

end

/-! ## White space at the end -/

/-- Letters are told by their numbers. -/
theorem isAlpha_eq (character : Char) : character.isAlpha =
    (decide (character.val ≥ 'A'.val ∧ character.val ≤ 'Z'.val) ||
      (decide (character.val ≥ 'a'.val) && decide (character.val ≤ 'z'.val))) :=
  rfl

theorem separates_of_isBlank {character : Char} (blank : Text.isBlank character = true) :
    Separates character ∧ character ≠ '/' ∧ character ≠ '*' := by
  have apart : ∀ other, Text.isBlank other = false → character ≠ other := by
    rintro other solid rfl
    rw [blank] at solid
    cases solid
  refine ⟨⟨?_, apart '=' (by decide), apart '&' (by decide), apart '|' (by decide)⟩,
    apart '/' (by decide), apart '*' (by decide)⟩
  have noUnderscore : character ≠ '_' := apart '_' (by decide)
  simp only [Text.isBlank, Text.blankRanges, List.any_cons, List.any_nil, Bool.or_eq_true,
    Bool.and_eq_true, decide_eq_true_eq, Bool.or_false, Char.toNat] at blank
  simp only [isWordPart, Char.isAlphanum, isAlpha_eq, Char.isDigit, Bool.or_eq_false_iff,
    Bool.and_eq_false_iff, decide_eq_false_iff_not, beq_eq_false_iff_ne, ge_iff_le,
    UInt32.le_iff_toNat_le]
  change _ ∧ character ≠ '_'
  have number : character.val.toNat = character.toNat := rfl
  refine ⟨⟨⟨?_, ?_⟩, ?_⟩, noUnderscore⟩ <;> simp <;> omega

theorem tokensFrom_blank {blank : Char} (isBlank : Text.isBlank blank = true)
    (position : Position) :
    ∃ final, final.lexeme = .endOfInput ∧ tokensFrom ⟨[blank], position⟩ = .ok [final] := by
  obtain ⟨-, noSlash, -⟩ := separates_of_isBlank isBlank
  have skipped : triviaLength? .code [blank] = some 1 := by
    rw [triviaLength?_cons (fun _ slash _ => noSlash slash) (fun _ slash _ => noSlash slash),
      if_pos isBlank]
    rfl
  exact ⟨_, rfl, tokensFrom_of_blank skipped rfl⟩

/-- A text with white space at its end has the same tokens before the end. -/
theorem tokensFrom_append_blanks {blanks : List Char} {before : List Token} :
    ∀ {cursor : Cursor} {stop : Token},
      (∀ character ∈ blanks, Text.isBlank character = true) → stop.lexeme = .endOfInput →
      tokensFrom cursor = .ok (before ++ [stop]) →
      ∃ final, final.lexeme = .endOfInput ∧
        tokensFrom (cursor.continuedBy blanks) = .ok (before ++ [final]) := by
  induction blanks with
  | nil =>
    intro cursor stop _ ended read
    rw [Cursor.continuedBy, List.append_nil]
    exact ⟨stop, ended, read⟩
  | cons blank blanks inductionHypothesis =>
    intro cursor stop allBlank ended read
    have split : cursor.continuedBy (blank :: blanks) =
        (cursor.continuedBy [blank]).continuedBy blanks := by
      simp [Cursor.continuedBy]
    rw [split]
    have rest := fun character member => allBlank character (List.mem_cons_of_mem blank member)
    have isBlank := allBlank blank List.mem_cons_self
    obtain ⟨separates, noSlash, noStar⟩ := separates_of_isBlank isBlank
    obtain ⟨same, last, tokens, -, comment | longer⟩ :=
      tokensFrom_concat separates noSlash noStar read
    · obtain ⟨rfl, -⟩ := List.append_inj' tokens rfl
      obtain ⟨final, ends, whole⟩ := comment
      exact inductionHypothesis rest ends whole
    · obtain ⟨rfl, -⟩ := List.append_inj' tokens rfl
      obtain ⟨final, ends, alone⟩ :=
        tokensFrom_blank isBlank (cursor.position.advanceAll cursor.rest)
      rw [alone] at longer
      exact inductionHypothesis rest ends longer

/-- A text without the white space at its end has the same tokens before the end. -/
theorem tokensFrom_of_append_blanks {blanks : List Char} :
    ∀ {cursor : Cursor} {before : List Token} {stop : Token},
      (∀ character ∈ blanks, Text.isBlank character = true) → stop.lexeme = .endOfInput →
      tokensFrom (cursor.continuedBy blanks) = .ok (before ++ [stop]) →
      ∃ final, final.lexeme = .endOfInput ∧ tokensFrom cursor = .ok (before ++ [final]) := by
  induction blanks with
  | nil =>
    intro cursor before stop _ ended read
    rw [Cursor.continuedBy, List.append_nil] at read
    exact ⟨stop, ended, read⟩
  | cons blank blanks inductionHypothesis =>
    intro cursor before stop allBlank ended read
    have split : cursor.continuedBy (blank :: blanks) =
        (cursor.continuedBy [blank]).continuedBy blanks := by
      simp [Cursor.continuedBy]
    rw [split] at read
    obtain ⟨final, ends, shorter⟩ := inductionHypothesis
      (fun character member => allBlank character (List.mem_cons_of_mem _ member)) ended read
    have isBlank := allBlank blank List.mem_cons_self
    obtain ⟨separates, noSlash, noStar⟩ := separates_of_isBlank isBlank
    obtain ⟨same, other, found, finishes, comment | ⟨others, alone, whole⟩⟩ :=
      tokensFrom_of_concat separates noSlash noStar shorter
    · obtain ⟨last, -, whole⟩ := comment
      obtain ⟨rfl, -⟩ := List.append_inj' whole rfl
      exact ⟨other, finishes, found⟩
    · obtain ⟨last, -, onlyEnd⟩ :=
        tokensFrom_blank isBlank (cursor.position.advanceAll cursor.rest)
      obtain rfl := Except.ok.inj (alone.symm.trans onlyEnd)
      obtain ⟨rfl, -⟩ := List.append_inj' whole rfl
      exact ⟨other, finishes, found⟩

theorem trimEnd_split (characters : List Char) :
    ∃ blanks, characters = Text.trimEnd characters ++ blanks ∧
      ∀ character ∈ blanks, Text.isBlank character = true := by
  refine ⟨(characters.reverse.takeWhile Text.isBlank).reverse, ?_, fun character member => ?_⟩
  · rw [Text.trimEnd, ← List.reverse_append, List.takeWhile_append_dropWhile, List.reverse_reverse]
  · exact List.all_eq_true.mp List.all_takeWhile character (List.mem_reverse.mp member)

/-- A trimmed text has the same tokens before the end. -/
theorem tokensFrom_trimEnd {characters : List Char} {position : Position} {before : List Token}
    {stop : Token} (ended : stop.lexeme = .endOfInput)
    (read : tokensFrom ⟨characters, position⟩ = .ok (before ++ [stop])) :
    ∃ final, final.lexeme = .endOfInput ∧
      tokensFrom ⟨Text.trimEnd characters, position⟩ = .ok (before ++ [final]) := by
  obtain ⟨blanks, split, allBlank⟩ := trimEnd_split characters
  have longer : (⟨characters, position⟩ : Cursor) =
      (⟨Text.trimEnd characters, position⟩ : Cursor).continuedBy blanks := by
    rw [Cursor.continuedBy, ← split]
  rw [longer] at read
  exact tokensFrom_of_append_blanks allBlank ended read

/-! ## Semicolons -/

theorem eq_semicolon_of_readLexeme {first : Char} {rest : List Char}
    (read : (readLexeme first rest).1 = .ok (.mark .semicolon)) : first = ';' := by
  unfold readLexeme at read
  grind [Lexeme.ofWord]

/-- The place stands behind a semicolon of the text. -/
def Cursor.HasSemicolonBefore (cursor : Cursor) (place : Position) : Prop :=
  ∃ before after, cursor.rest = before ++ ';' :: after ∧
    place = cursor.position.advanceAll (before ++ [';'])

theorem Cursor.HasSemicolonBefore.of_advance {cursor : Cursor} {count : Nat} {place : Position}
    (behind : (cursor.advance count).HasSemicolonBefore place) :
    cursor.HasSemicolonBefore place := by
  obtain ⟨before, after, split, rfl⟩ := behind
  refine ⟨cursor.rest.take count ++ before, after, ?_, ?_⟩
  · rw [List.append_assoc, ← split]
    exact (List.take_append_drop count cursor.rest).symm
  · rw [List.append_assoc, Position.advanceAll_append cursor.position]
    rfl

/-- Every semicolon is the token of a character of the text, behind which it stops. -/
theorem hasSemicolonBefore {cursor : Cursor} {tokens : List Token}
    (read : tokensFrom cursor = .ok tokens) {token : Token} (member : token ∈ tokens)
    (semicolon : token.lexeme = .mark .semicolon) : cursor.HasSemicolonBefore token.span.stop := by
  induction read using tokensFrom_ok_induction with
  | stop cursor skipped trivia blank =>
    obtain rfl := List.mem_singleton.mp member
    cases semicolon
  | more cursor skipped first rest lexeme others trivia found readAs start next behind
      inductionHypothesis =>
    rcases List.mem_cons.mp member with rfl | later
    · obtain rfl := eq_semicolon_of_readLexeme (readAs.trans (congrArg _ semicolon))
      have here : start.HasSemicolonBefore (start.position.advanceAll [';']) :=
        ⟨[], rest, found, rfl⟩
      have stops : start.advance 1 = ⟨rest, start.position.advanceAll [';']⟩ := by
        rw [Cursor.advance, show start.rest = ';' :: rest from found]
        rfl
      exact (congrArg _ (congrArg Cursor.position stops)).mpr here.of_advance
    · exact (inductionHypothesis later).of_advance.of_advance

/-- Only the last character of a text can be a semicolon that stands at its end. -/
theorem Cursor.HasSemicolonBefore.at_end {cursor : Cursor} {more : List Char}
    (before : cursor.HasSemicolonBefore (cursor.position.advanceAll (cursor.rest ++ more))) :
    more = [] ∧ ∃ front, cursor.rest = front ++ [';'] := by
  obtain ⟨front, behind, split, same⟩ := before
  have further : ((cursor.position.advanceAll (front ++ [';'])).advanceAll (behind ++ more)) =
      cursor.position.advanceAll (front ++ [';']) := by
    have whole : front ++ [';'] ++ (behind ++ more) = cursor.rest ++ more := by simp [split]
    rw [← Position.advanceAll_append, whole, same]
  obtain ⟨rfl, rfl⟩ := List.append_eq_nil_iff.mp (Position.eq_nil_of_advanceAll further)
  exact ⟨rfl, front, split⟩

end IncrementalC
