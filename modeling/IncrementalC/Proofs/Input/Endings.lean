import IncrementalC.Proofs.Input.Joining
import IncrementalC.Proofs.Token.Segmentation

/-!
Contract: joining chunks neither swallows nor splits text.

Where the reader of tokens stands at the end of a text is told by the grammar of trivia and
lexemes alone: in code, in a line comment, or in a block comment. The reader of typed input,
which knows quotations and no lexemes, stands at the same place.

Owns:
- where the reader of tokens stands at the end of a text;
- that chunks are joined by a line break if it stands in a line comment there, and as they are
  otherwise;
- the tokens of a text that is joined behind a line comment.

Does not own: texts with wrong characters.
-/

namespace IncrementalC.Input

/-! ## The end of a text -/

/-- The reader of tokens, starting in code, takes trivia and lexemes up to the end of the
characters and stands in the context there. -/
inductive ReadsUpTo : List Char → TriviaContext → Prop where
  | code {gap : List Char} (trivia : Trivia false gap) : ReadsUpTo gap .code
  | line {gap : List Char} (trivia : Trivia true gap) : ReadsUpTo gap .lineComment
  | block {gap comment : List Char} (trivia : Trivia false gap)
      (unended : ¬['*', '/'] <:+: comment) :
      ReadsUpTo (gap ++ '/' :: '*' :: comment) .blockComment
  | lexeme {gap spelling after : List Char} {lexeme : Lexeme} {context : TriviaContext}
      (trivia : Trivia false gap) (spelled : lexeme.SpelledBy spelling after)
      (behind : ReadsUpTo after context) : ReadsUpTo (gap ++ spelling ++ after) context

/-! ## Both readers -/

/-- Only the slash is more to the reader of typed input than a character of code. -/
theorem plain_of_spelling {lexeme : Lexeme} {spelling after : List Char}
    (spelled : lexeme.SpelledBy spelling after) (other : lexeme ≠ .mark .slash) :
    ∀ character ∈ spelling, Plain character := by
  cases spelled with
  | keyword word =>
    have parts : word.spelling.toList.all isWordPart = true := by cases word <;> decide
    exact fun character member => plain_of_isWordPart (List.all_eq_true.mp parts character member)
  | identifier starts goesOn =>
    intro character member
    rcases List.mem_cons.mp member with rfl | member
    · exact plain_of_isWordPart (isWordPart_of_isWordStart starts)
    · exact plain_of_isWordPart (goesOn character member)
  | integer some decimal =>
    exact fun character member => plain_of_isDigit (decimal character member)
  | mark symbol =>
    have apart : symbol.spelling.all (fun character => character != '/' && character != '"') =
        true := by
      cases symbol <;> first | rfl | exact absurd rfl other
    intro character member
    have here := List.all_eq_true.mp apart character member
    rw [Bool.and_eq_true, bne_iff_ne, bne_iff_ne] at here
    exact here

/-- The reader of typed input comes through a lexeme into code. -/
theorem scan_append_spelling {lexeme : Lexeme} {spelling after : List Char}
    (spelled : lexeme.SpelledBy spelling after) :
    (scan .code (spelling ++ after)).2 = (scan .code after).2 := by
  by_cases slash : lexeme = .mark .slash
  · subst slash
    cases spelled with
    | mark symbol longest noComment =>
      show (scan .code ('/' :: after)).2 = _
      rw [scan_code_cons (by decide)]
      · rintro others - rfl
        exact (noComment rfl '/' rfl).1 rfl
      · rintro others - rfl
        exact (noComment rfl '*' rfl).2 rfl
  · have through := @scan_drop (spelling ++ after) spelling.length (by
      rw [List.take_left]
      exact plain_of_spelling spelled slash)
    rwa [List.drop_left] at through

/-- Where the reader of tokens stands, the reader of typed input does. -/
theorem ReadsUpTo.scan_eq {characters : List Char} {context : TriviaContext}
    (reads : ReadsUpTo characters context) : (scan .code characters).2 = scanningOf context := by
  induction reads with
  | code trivia =>
    have through := @scan_append_trivia false _ [] trivia nofun
    rwa [List.append_nil] at through
  | line trivia =>
    have through := @scan_append_trivia true _ [] trivia fun _ => rfl
    rwa [List.append_nil] at through
  | block trivia unended =>
    rw [scan_append_trivia trivia nofun]
    exact scan_blockComment_of_unended unended
  | lexeme trivia spelled _ inductionHypothesis =>
    rw [List.append_assoc, scan_append_trivia trivia nofun]
    exact (scan_append_spelling spelled).trans inductionHypothesis

/-- The reader of tokens ends at one place only. -/
theorem ReadsUpTo.unique {characters : List Char} {context other : TriviaContext}
    (reads : ReadsUpTo characters context) (readsToo : ReadsUpTo characters other) :
    other = context := by
  have same := readsToo.scan_eq.symm.trans reads.scan_eq
  cases context <;> cases other <;> first | rfl | cases same

/-- The reader of tokens comes to the end of a text unless it meets a wrong character. -/
theorem exists_readsUpTo {cursor : Cursor}
    (readable : ∀ diagnostic, tokensFrom cursor ≠ .error (.invalid diagnostic)) :
    ∃ context, ReadsUpTo cursor.rest context := by
  induction cursor using tokensFrom.induct with
  | case1 cursor unended =>
    obtain ⟨gap, comment, trivia, noEnd, split⟩ := trivia_of_unended unended
    rw [TriviaContext.marks, List.nil_append] at split
    exact ⟨.blockComment, split ▸ .block trivia noEnd⟩
  | case2 cursor skipped trivia start blank =>
    obtain ⟨stopsInLine, gap, -⟩ := trivia_of_length trivia
    rw [List.take_of_length_le (List.drop_eq_nil_iff.mp blank)] at gap
    cases stopsInLine with
    | false => exact ⟨.code, .code gap⟩
    | true => exact ⟨.lineComment, .line gap⟩
  | case3 cursor skipped trivia start first rest found outcome problem failed =>
    simp only [outcome] at failed
    have wrong := tokensFrom_of_more trivia found
    rw [failed] at wrong
    exact absurd wrong (readable _)
  | case4 cursor skipped trivia start first rest found outcome next lexeme readAs shorter
      inductionHypothesis =>
    simp only [outcome] at readAs
    have reads := tokensFrom_of_more trivia found
    rw [readAs] at reads
    obtain ⟨context, behind⟩ := inductionHypothesis fun diagnostic wrong =>
      readable diagnostic (reads.trans (map_eq_error_iff.mpr wrong))
    obtain ⟨gap, spelled, split⟩ := split_of_readLexeme trivia found readAs
    have nextRest : next.rest = rest.drop (readLexeme first rest).2 := by
      have startRest : start.rest = first :: rest := found
      simp only [next, outcome, Cursor.advance, startRest, List.drop_succ_cons]
    rw [nextRest] at behind
    exact ⟨context, split ▸ .lexeme gap spelled behind⟩

/-! ## Chunks -/

/-- The tokens of a text and those of the text behind its line break, which stand further down. -/
theorem tokenize_append_line {buffer chunk : String} {tokens others : List Token}
    (read : tokenize buffer = .ok tokens) (readToo : tokenize chunk = .ok others) :
    ∃ before stop, tokens = before ++ [stop] ∧ stop.lexeme = .endOfInput ∧
      (∀ token ∈ before, token.lexeme ≠ .endOfInput) ∧
      tokenize (buffer ++ "\n" ++ chunk) = .ok (before ++ others.map (Token.moved
        (.below (buffer.toList.count '\n' + 1) (buffer.utf8ByteSize + 1)))) := by
  obtain ⟨before, stop, split, ended, unended, longer⟩ := tokenize_newline read
  refine ⟨before, stop, split, ended, unended, ?_⟩
  have place : Position.first.advanceAll (buffer ++ "\n").toList =
      Position.below (buffer.toList.count '\n' + 1) (buffer.utf8ByteSize + 1) .first := by
    have size : (buffer ++ "\n").utf8ByteSize = buffer.utf8ByteSize + 1 :=
      String.utf8ByteSize_append
    rw [Position.advanceAll_first, Position.behind, Position.below, String.ofList_toList, size]
    simp [Position.first, Nat.add_comm]
  have moved := tokensFrom_moved (carries_below (buffer.toList.count '\n' + 1)
    (buffer.utf8ByteSize + 1)) (.atStart chunk.toList)
  rw [show tokensFrom (.atStart chunk.toList) = .ok others from readToo] at moved
  rw [longer, place]
  exact congrArg (Except.map (before ++ ·)) moved

/-- Chunks are joined by a line break if the reader of tokens stands in a line comment at the end
of the first, and as they are otherwise. Behind a line comment the joined text has the tokens of
both, and no other. -/
theorem joining_neither_swallows_nor_splits {buffer : String}
    (readable : ∀ diagnostic, tokenize buffer ≠ .error (.invalid diagnostic)) (chunk : String) :
    ∃ context, ReadsUpTo buffer.toList context ∧
      (∀ other, ReadsUpTo buffer.toList other → other = context) ∧
      joinContinuation buffer chunk =
        (if context = .lineComment then buffer ++ "\n" ++ chunk else buffer ++ chunk) ∧
      ∀ tokens others, context = .lineComment → tokenize buffer = .ok tokens →
        tokenize chunk = .ok others →
        ∃ before stop, tokens = before ++ [stop] ∧ stop.lexeme = .endOfInput ∧
          (∀ token ∈ before, token.lexeme ≠ .endOfInput) ∧
          tokenize (joinContinuation buffer chunk) = .ok (before ++ others.map (Token.moved
            (.below (buffer.toList.count '\n' + 1) (buffer.utf8ByteSize + 1)))) := by
  obtain ⟨context, reads⟩ := exists_readsUpTo readable
  have inside : endsInLineComment buffer.toList = true ↔ context = .lineComment := by
    rw [endsInLineComment, decide_eq_true_iff, show (scan .code buffer.toList).2 = _ from
      reads.scan_eq]
    cases context <;> simp [scanningOf]
  have joined : joinContinuation buffer chunk =
      if context = .lineComment then buffer ++ "\n" ++ chunk else buffer ++ chunk := by
    unfold joinContinuation joinCharacters
    rw [if_congr inside rfl rfl]
    split <;> exact String.toList_injective (by simp)
  refine ⟨context, reads, fun other => reads.unique, joined, ?_⟩
  rintro tokens others rfl read readToo
  rw [joined, if_pos rfl]
  exact tokenize_append_line read readToo

/-- The marks of comments mean nothing in other comments, nor do quotes. -/
theorem joins_behind_marks_in_comments :
    let buffer := "a/*/ \" // **/b// it's \"/*"
    let chunk := "c/*\"*/"
    (∀ diagnostic, tokenize buffer ≠ .error (.invalid diagnostic)) ∧
      ReadsUpTo buffer.toList .lineComment ∧
      joinContinuation buffer chunk = buffer ++ "\n" ++ chunk ∧
      tokenize (joinContinuation buffer chunk) = .ok
        [⟨.identifier "a", ⟨1, 1, 0⟩, ⟨1, 2, 1⟩⟩, ⟨.identifier "b", ⟨1, 14, 13⟩, ⟨1, 15, 14⟩⟩,
          ⟨.identifier "c", ⟨2, 1, 26⟩, ⟨2, 2, 27⟩⟩, ⟨.endOfInput, ⟨2, 7, 32⟩, ⟨2, 7, 32⟩⟩] := by
  intro buffer chunk
  have read : tokenize buffer = .ok
      [⟨.identifier "a", ⟨1, 1, 0⟩, ⟨1, 2, 1⟩⟩, ⟨.identifier "b", ⟨1, 14, 13⟩, ⟨1, 15, 14⟩⟩,
        ⟨.endOfInput, ⟨1, 26, 25⟩, ⟨1, 26, 25⟩⟩] := ok_of_toOption (by decide +kernel)
  have readToo : tokenize chunk = .ok
      [⟨.identifier "c", ⟨1, 1, 0⟩, ⟨1, 2, 1⟩⟩, ⟨.endOfInput, ⟨1, 7, 6⟩, ⟨1, 7, 6⟩⟩] :=
    ok_of_toOption (by decide +kernel)
  have readable : ∀ diagnostic, tokenize buffer ≠ .error (.invalid diagnostic) := by
    rw [read]
    exact nofun
  obtain ⟨context, reads, -, joined, behind⟩ :=
    joining_neither_swallows_nor_splits readable chunk
  obtain rfl : context = .lineComment := by
    have stands : (scan .code buffer.toList).2 = .lineComment := by decide +kernel
    have same := reads.scan_eq.symm.trans stands
    cases context <;> first | rfl | cases same
  obtain ⟨before, stop, split, -, -, together⟩ := behind _ _ rfl read readToo
  obtain rfl := (congrArg List.dropLast split).trans List.dropLast_concat
  refine ⟨readable, reads, joined, together.trans (congrArg Except.ok ?_)⟩
  decide +kernel

end IncrementalC.Input
