import IncrementalC.Proofs.Input.Placement
import IncrementalC.Proofs.Input.Wrapping

/-!
Contract: what comments change about typed input.

A blank in the place of each comment leaves the tokens as they are. So input is complete, and is
placed in a function, as without its comments. How placed input is used is decided by its
characters, and there a semicolon or a brace in a comment counts.

Owns:
- texts with a blank in the place of each comment, and their tokens;
- that comments change neither whether input is complete nor whether it is placed;
- which comments make statements of an expression.

Does not own: what trivia are.
-/

namespace IncrementalC.Input

/-! ## Blanks for comments -/

/-- A text, read in `context`, with a blank in the place of each comment. The line break behind a
line comment stays. -/
def blankComments : TriviaContext → List Char → List Char
  | .code, '/' :: '/' :: rest => ' ' :: blankComments .lineComment rest
  | .code, '/' :: '*' :: rest => ' ' :: blankComments .blockComment rest
  | .code, character :: rest => character :: blankComments .code rest
  | .lineComment, character :: rest =>
    if character = '\n' then '\n' :: blankComments .code rest
    else blankComments .lineComment rest
  | .blockComment, '*' :: '/' :: rest => blankComments .code rest
  | .blockComment, _ :: rest => blankComments .blockComment rest
  | _, [] => []

section

attribute [local simp] blankComments

theorem blankComments_cons {head : Char} {rest : List Char}
    (notLine : ∀ others, head = '/' → rest = '/' :: others → False)
    (notBlock : ∀ others, head = '/' → rest = '*' :: others → False) :
    blankComments .code (head :: rest) = head :: blankComments .code rest := by
  rw [blankComments]
  · exact notLine
  · exact notBlock

/-- What is no trivia starts no comment. -/
theorem blankComments_of_solid {head : Char} {rest : List Char}
    (solid : triviaLength? .code (head :: rest) = some 0) :
    blankComments .code (head :: rest) = head :: blankComments .code rest := by
  refine blankComments_cons ?_ ?_
  · rintro others rfl rfl
    simp [triviaLength?] at solid
  · rintro others rfl rfl
    simp [triviaLength?] at solid

/-- What stands in front of the first slash is no comment. -/
theorem blankComments_append {front : List Char} (noSlash : '/' ∉ front) (rest : List Char) :
    blankComments .code (front ++ rest) = front ++ blankComments .code rest := by
  induction front with
  | nil => rfl
  | cons head front inductionHypothesis =>
    rw [List.mem_cons, not_or] at noSlash
    rw [List.cons_append, blankComments_cons (fun _ slash _ => noSlash.1 slash.symm)
      (fun _ slash _ => noSlash.1 slash.symm), inductionHypothesis noSlash.2, List.cons_append]

theorem blankComments_of_noSlash {characters : List Char} (noSlash : '/' ∉ characters) :
    blankComments .code characters = characters := by
  have whole := blankComments_append noSlash []
  simpa using whole

end

/-- A character stays in front, unless it is the slash that starts a comment. -/
theorem blankComments_front (first : Char) (rest : List Char) :
    ∃ more, blankComments .code (first :: rest) = first :: more ∨
      first = '/' ∧ blankComments .code (first :: rest) = ' ' :: more := by
  generalize inCode : TriviaContext.code = context
  generalize taken : first :: rest = characters
  fun_cases blankComments context characters with
  | case1 behind | case2 behind =>
    obtain ⟨rfl, -⟩ := List.cons.inj taken
    exact ⟨_, .inr ⟨rfl, rfl⟩⟩
  | case3 head behind =>
    obtain ⟨rfl, -⟩ := List.cons.inj taken
    exact ⟨_, .inl rfl⟩
  | case4 | case5 | case6 | case7 => cases inCode
  | case8 => cases taken

/-- What stands in front among the blanks stands in front of the text. -/
theorem eq_cons_of_blankComments {characters more : List Char} {head : Char}
    (front : blankComments .code characters = head :: more) (solid : head ≠ ' ') :
    ∃ rest, characters = head :: rest := by
  cases characters with
  | nil => cases front
  | cons first rest =>
    obtain ⟨others, stays | ⟨-, blank⟩⟩ := blankComments_front first rest
    · obtain ⟨rfl, -⟩ := List.cons.inj (stays.symm.trans front)
      exact ⟨rest, rfl⟩
    · exact absurd (List.cons.inj (blank.symm.trans front)).1.symm solid

/-- White space in front leaves the same behind the trivia. -/
theorem exists_behind_blank {blank : Char} {characters rest : List Char}
    (isBlank : Text.isBlank blank = true)
    (behind : ∃ count, triviaLength? .code characters = some count ∧
      characters.drop count = rest) :
    ∃ count, triviaLength? .code (blank :: characters) = some count ∧
      (blank :: characters).drop count = rest := by
  obtain ⟨count, trivia, dropped⟩ := behind
  have noSlash := (isBlank_ne isBlank).1
  refine ⟨count + 1, ?_, dropped⟩
  rw [triviaLength?_cons (fun _ slash _ => noSlash slash) (fun _ slash _ => noSlash slash),
    if_pos isBlank, trivia]
  rfl

/-- Behind the trivia stands the same, with blanks for the comments there. -/
theorem triviaLength?_blankComments (context : TriviaContext) (characters : List Char) :
    ∃ count, triviaLength? .code (blankComments context characters) = some count ∧
      (blankComments context characters).drop count =
        blankComments .code (behindTrivia context characters) := by
  fun_induction blankComments context characters with
  | case1 rest inductionHypothesis =>
    rw [behindTrivia_startLine]
    exact exists_behind_blank (by decide) inductionHypothesis
  | case2 rest inductionHypothesis =>
    rw [behindTrivia_startBlock]
    exact exists_behind_blank (by decide) inductionHypothesis
  | case3 head rest notLine notBlock inductionHypothesis =>
    have counted := triviaLength?_cons notLine notBlock
    by_cases isBlank : Text.isBlank head = true
    · rw [if_pos isBlank] at counted
      have same : behindTrivia .code (head :: rest) = behindTrivia .code rest :=
        behindTrivia_append [head] counted
      rw [same]
      exact exists_behind_blank isBlank inductionHypothesis
    · rw [if_neg isBlank] at counted
      have stays := blankComments_cons notLine notBlock
      refine ⟨0, ?_, by rw [behindTrivia_of_length counted, List.drop_zero, List.drop_zero, stays]⟩
      rw [triviaLength?_cons ?_ ?_, if_neg isBlank]
      · intro others slash next
        obtain ⟨tail, rfl⟩ := eq_cons_of_blankComments next (by decide)
        exact notLine tail slash rfl
      · intro others slash next
        obtain ⟨tail, rfl⟩ := eq_cons_of_blankComments next (by decide)
        exact notBlock tail slash rfl
  | case4 rest inductionHypothesis =>
    have same : behindTrivia .lineComment ('\n' :: rest) = behindTrivia .code rest :=
      behindTrivia_append ['\n'] (by simp [triviaLength?])
    rw [same]
    exact exists_behind_blank (by decide) inductionHypothesis
  | case5 head rest noBreak inductionHypothesis =>
    have same : behindTrivia .lineComment (head :: rest) = behindTrivia .lineComment rest :=
      behindTrivia_append [head] (by simp [triviaLength?, noBreak])
    rw [same]
    exact inductionHypothesis
  | case6 rest inductionHypothesis =>
    rw [behindTrivia_endBlock]
    exact inductionHypothesis
  | case7 head rest stays inductionHypothesis =>
    rw [behindTrivia_blockComment_cons stays]
    exact inductionHypothesis
  | case8 context => cases context <;> exact ⟨0, rfl, rfl⟩

/-! ## Tokens -/

theorem separates_space : Separates ' ' := by
  unfold Separates
  decide

/-- No lexeme goes on where a comment is, nor at a slash. -/
theorem blankComments_slash (behind : List Char) :
    ∃ head more, blankComments .code ('/' :: behind) = head :: more ∧ Separates head := by
  obtain ⟨more, stays | ⟨-, blank⟩⟩ := blankComments_front '/' behind
  · exact ⟨_, _, stays, separates_slash⟩
  · exact ⟨_, _, blank, separates_space⟩

/-- The first lexeme is the same with blanks for comments, and so are the characters taken. -/
theorem readLexeme_blankComments (first : Char) (rest : List Char) :
    readLexeme first (blankComments .code rest) = readLexeme first rest ∧
      (blankComments .code rest).drop (readLexeme first rest).2 =
        blankComments .code (rest.drop (readLexeme first rest).2) := by
  by_cases slash : '/' ∈ rest
  · obtain ⟨front, behind, rfl, noSlash⟩ := List.eq_append_cons_of_mem slash
    have short : (readLexeme first front).2 ≤ front.length := readLexeme_le first front
    obtain ⟨head, more, follows, separates⟩ := blankComments_slash behind
    rw [readLexeme_append separates_slash, blankComments_append noSlash,
      List.drop_append_of_le_length short, List.drop_append_of_le_length short,
      blankComments_append fun member => noSlash (List.mem_of_mem_drop member), follows]
    exact ⟨readLexeme_append separates first front, rfl⟩
  · rw [blankComments_of_noSlash slash,
      blankComments_of_noSlash fun member => slash (List.mem_of_mem_drop member)]
    exact ⟨rfl, rfl⟩

/-- A text has the same lexemes with blanks for its comments. -/
theorem tokensFrom_blankComments {cursor other : Cursor} {tokens : List Token}
    (read : tokensFrom cursor = .ok tokens)
    (blanked : other.rest = blankComments .code cursor.rest) :
    ∃ same, tokensFrom other = .ok same ∧
      same.map Token.lexeme = tokens.map Token.lexeme := by
  induction read using tokensFrom_ok_induction generalizing other with
  | stop cursor skipped trivia blank =>
    obtain ⟨count, counted, behind⟩ := triviaLength?_blankComments .code cursor.rest
    rw [behindTrivia_of_length trivia, blank, ← blanked] at behind
    rw [← blanked] at counted
    exact ⟨_, tokensFrom_of_blank counted behind, rfl⟩
  | more cursor skipped first rest lexeme others trivia found readAs start next behind
      inductionHypothesis =>
    obtain ⟨count, counted, follows⟩ := triviaLength?_blankComments .code cursor.rest
    rw [behindTrivia_of_length trivia, found,
      blankComments_of_solid (found ▸ triviaLength?_drop trivia), ← blanked] at follows
    rw [← blanked] at counted
    have here : (other.advance count).rest = first :: blankComments .code rest := follows
    obtain ⟨sameLexeme, sameRest⟩ := readLexeme_blankComments first rest
    have nextRest : ((other.advance count).advance ((readLexeme first rest).2 + 1)).rest =
        blankComments .code next.rest := by
      have behindFirst : next.rest = rest.drop (readLexeme first rest).2 := by
        simp only [next, start, Cursor.advance, found, List.drop_succ_cons]
      rw [behindFirst, ← sameRest, Cursor.advance, here, List.drop_succ_cons]
    obtain ⟨same, later, lexemes⟩ := inductionHypothesis nextRest
    have reads := tokensFrom_of_more counted here
    simp only [sameLexeme, readAs, later] at reads
    exact ⟨_, reads, congrArg (lexeme :: ·) lexemes⟩

theorem tokenize_blankComments {text : String} {tokens : List Token}
    (read : tokenize text = .ok tokens) :
    ∃ same, tokenize (String.ofList (blankComments .code text.toList)) = .ok same ∧
      same.map Token.lexeme = tokens.map Token.lexeme :=
  tokensFrom_blankComments read (String.toList_ofList ..)

/-! ## Classification by tokens -/

theorem dropTrivia_blankComments (characters : List Char) :
    dropTrivia (blankComments .code characters) = blankComments .code (dropTrivia characters) := by
  obtain ⟨count, counted, behind⟩ := triviaLength?_blankComments .code characters
  rw [dropTrivia_eq, dropTrivia_eq, behindTrivia_of_length counted, behind]

/-- A text starts with the same word with blanks for its comments. -/
theorem firstWord_blankComments (characters : List Char) :
    firstWord (blankComments .code characters) = firstWord characters := by
  rw [firstWord, firstWord, dropTrivia_blankComments]
  by_cases slash : '/' ∈ dropTrivia characters
  · obtain ⟨front, behind, split, noSlash⟩ := List.eq_append_cons_of_mem slash
    obtain ⟨head, more, follows, separates⟩ := blankComments_slash behind
    rw [split, blankComments_append noSlash, follows, takeWhile_append_cons separates.1,
      takeWhile_append_cons separates_slash.1]
  · rw [blankComments_of_noSlash slash]

/-- Comments do not change whether input is placed in a function. -/
theorem needsWrapping_blankComments (characters : List Char) :
    needsWrapping (blankComments .code characters) = needsWrapping characters := by
  have same : (blankComments .code (dropTrivia characters)).isEmpty =
      (dropTrivia characters).isEmpty := by
    cases dropTrivia characters with
    | nil => rfl
    | cons head rest =>
      obtain ⟨more, stays | ⟨-, blank⟩⟩ := blankComments_front head rest
      · rw [stays]
        rfl
      · rw [blank]
        rfl
  rw [needsWrapping, needsWrapping, firstWord_blankComments, dropTrivia_blankComments, same]

/-- Comments do not change whether input that can be read is complete. -/
theorem isComplete_blankComments {text : String} {tokens : List Token}
    (read : tokenize text = .ok tokens) :
    isComplete (blankComments .code text.toList) = isComplete text.toList := by
  obtain ⟨others, reads, same⟩ := tokenize_blankComments read
  have brackets : Syntax.brackets others = Syntax.brackets tokens :=
    (brackets_of_lexemes same).trans (brackets_of_lexemes rfl).symm
  have complete := isComplete_of_tokens reads
  rw [String.toList_ofList, brackets, ← isComplete_of_tokens read] at complete
  exact Bool.eq_iff_iff.mpr complete

/-! ## Values -/

/-- Blanks for comments bring no other characters than white space. -/
theorem isBlank_or_mem_of_mem_blankComments {context : TriviaContext} {characters : List Char}
    {character : Char} (member : character ∈ blankComments context characters) :
    Text.isBlank character = true ∨ character ∈ characters := by
  fun_induction blankComments context characters with
  | case1 rest inductionHypothesis | case2 rest inductionHypothesis =>
    rcases List.mem_cons.mp member with rfl | later
    · exact .inl (by decide)
    · exact (inductionHypothesis later).imp_right (by simp +contextual)
  | case3 head rest notLine notBlock inductionHypothesis =>
    rcases List.mem_cons.mp member with rfl | later
    · exact .inr List.mem_cons_self
    · exact (inductionHypothesis later).imp_right (List.mem_cons_of_mem head)
  | case4 rest inductionHypothesis =>
    rcases List.mem_cons.mp member with rfl | later
    · exact .inl (by decide)
    · exact (inductionHypothesis later).imp_right (List.mem_cons_of_mem _)
  | case5 head rest noBreak inductionHypothesis =>
    exact (inductionHypothesis member).imp_right (List.mem_cons_of_mem head)
  | case6 rest inductionHypothesis =>
    exact (inductionHypothesis member).imp_right (by simp +contextual)
  | case7 head rest stays inductionHypothesis =>
    exact (inductionHypothesis member).imp_right (List.mem_cons_of_mem head)
  | case8 => exact absurd member List.not_mem_nil

/-- Only white space stands behind a semicolon. -/
def SemicolonsLast (characters : List Char) : Prop :=
  characters.Pairwise fun before after => before = ';' → Text.isBlank after = true

theorem semicolonsLast_of_not_mem {characters : List Char} (none : ';' ∉ characters) :
    SemicolonsLast characters :=
  List.pairwise_of_forall_mem_list fun _ member _ _ same => absurd (same ▸ member) none

theorem SemicolonsLast.tail {head : Char} {rest : List Char}
    (last : SemicolonsLast (head :: rest)) : SemicolonsLast rest :=
  (List.pairwise_cons.mp last).2

theorem SemicolonsLast.cons {head : Char} {rest : List Char} (other : head ≠ ';')
    (last : SemicolonsLast rest) : SemicolonsLast (head :: rest) :=
  List.pairwise_cons.mpr ⟨fun _ _ same => absurd same other, last⟩

/-- Blanks for comments bring only white space behind a semicolon. -/
theorem SemicolonsLast.blankComments {context : TriviaContext} {characters : List Char}
    (last : SemicolonsLast characters) :
    SemicolonsLast (Input.blankComments context characters) := by
  fun_induction Input.blankComments context characters with
  | case1 rest inductionHypothesis | case2 rest inductionHypothesis =>
    exact .cons (by decide) (inductionHypothesis last.tail.tail)
  | case3 head rest notLine notBlock inductionHypothesis =>
    obtain ⟨behind, later⟩ := List.pairwise_cons.mp last
    refine List.pairwise_cons.mpr ⟨fun after member semicolon => ?_, inductionHypothesis later⟩
    exact (isBlank_or_mem_of_mem_blankComments member).elim id fun inside =>
      behind after inside semicolon
  | case4 rest inductionHypothesis => exact .cons (by decide) (inductionHypothesis last.tail)
  | case5 head rest noBreak inductionHypothesis => exact inductionHypothesis last.tail
  | case6 rest inductionHypothesis => exact inductionHypothesis last.tail.tail
  | case7 head rest stays inductionHypothesis => exact inductionHypothesis last.tail
  | case8 => exact .nil

theorem IsEnding.semicolonsLast {characters : List Char} (ending : IsEnding characters) :
    SemicolonsLast characters := by
  obtain ⟨blanks, allBlank, split⟩ := ending
  have last : SemicolonsLast blanks :=
    semicolonsLast_of_not_mem fun member => absurd (allBlank ';' member) (by decide)
  rcases split with rfl | rfl
  · exact last
  · exact List.pairwise_cons.mpr ⟨fun after member _ => allBlank after member, last⟩

/-- What is placed of a text as an expression holds a semicolon, unless white space alone stands
behind the first. -/
theorem semicolonsLast_iff {characters : List Char} :
    SemicolonsLast characters ↔ ';' ∉ placed .value characters := by
  obtain ⟨behind, ending, split⟩ := placed_split .value characters
  constructor
  · intro only
    by_cases semicolon : ';' ∈ characters
    · obtain ⟨front, blanks, rfl, before⟩ := List.eq_append_cons_of_mem semicolon
      obtain ⟨-, follow, -⟩ := List.pairwise_append.mp only
      have allBlank : ∀ character ∈ blanks.reverse, Text.isBlank character = true :=
        fun character member =>
          (List.pairwise_cons.mp follow).1 character (List.mem_reverse.mp member) rfl
      have trimmed : Text.trimEnd (front ++ ';' :: blanks) = front ++ [';'] := by
        rw [Text.trimEnd, List.append_cons, List.reverse_append,
          List.dropWhile_append_of_pos allBlank, List.reverse_append]
        simp [Text.isBlank, Text.blankRanges]
      rwa [placed, trimmed, dropSemicolon_concat]
    · exact fun member => semicolon (split ▸ List.mem_append_left behind member)
  · intro none
    rw [split]
    exact List.pairwise_append.mpr ⟨semicolonsLast_of_not_mem none, ending.semicolonsLast,
      fun before member _ _ same => absurd (same ▸ member) none⟩

/-- A character that continues no word and makes no comment changes nothing about the first
word. -/
theorem firstWord_concat {character : Char} (separates : Separates character)
    (noSlash : character ≠ '/') (noStar : character ≠ '*') (characters : List Char) :
    firstWord (characters ++ [character]) = firstWord characters := by
  simp only [firstWord, dropTrivia_eq]
  cases trivia : triviaLength? .code characters with
  | none =>
    have longer := triviaLength?_concat_of_none noSlash trivia
    rw [behindTrivia, behindTrivia, trivia, longer]
  | some count =>
    rw [behindTrivia_of_length trivia]
    rcases Nat.lt_or_eq_of_le (triviaLength?_le trivia) with inside | rfl
    · have longer := @triviaLength?_append character [] _ _ _ trivia inside
        fun _ => ⟨noSlash, noStar⟩
      rw [behindTrivia_of_length longer, List.drop_append_of_le_length (Nat.le_of_lt inside),
        takeWhile_append_cons separates.1]
    · rw [List.drop_length, List.takeWhile_nil]
      rcases @triviaLength?_concat character _ _ trivia with all | follows
      · rw [behindTrivia_of_length all, List.drop_of_length_le (by simp), List.takeWhile_nil]
      · rw [behindTrivia_append characters follows, behindTrivia]
        rcases triviaLength? .code [character] with _ | _ | count
        · rfl
        · exact List.takeWhile_cons_of_neg (by simp [separates.1])
        · simp

/-- The end of a text changes nothing about its first word. -/
theorem firstWord_append {front behind : List Char}
    (ends : ∀ character ∈ behind, Text.isBlank character = true ∨ character = ';') :
    firstWord (front ++ behind) = firstWord front := by
  induction behind generalizing front with
  | nil => rw [List.append_nil]
  | cons character behind inductionHypothesis =>
    obtain ⟨first, others⟩ := List.forall_mem_cons.mp ends
    rw [List.append_cons, inductionHypothesis others]
    rcases first with blank | rfl
    · obtain ⟨separates, noSlash, noStar⟩ := separates_of_isBlank blank
      exact firstWord_concat separates noSlash noStar front
    · exact firstWord_concat separates_semicolon (by decide) (by decide) front

/-- Without semicolons and braces the first word tells how input is used. -/
theorem valueKind_of_placed {characters : List Char} (noSemicolon : ';' ∉ placed .value characters)
    (noBrace : '{' ∉ placed .value characters) :
    valueKind characters =
      if isOneOf statementWords (firstWord characters) then .statements else .value := by
  obtain ⟨behind, ending, split⟩ := placed_split .value characters
  have word : firstWord characters = firstWord (placed .value characters) := by
    conv => lhs; rw [split]
    exact firstWord_append fun _ member => ending.of_mem member
  rw [placed] at noSemicolon noBrace word
  simp [valueKind, noSemicolon, noBrace, word]

/-- Without its comments a text holds neither more semicolons nor more braces. -/
theorem valueKind_blankComments {characters : List Char}
    (noSemicolon : ';' ∉ placed .value characters) (noBrace : '{' ∉ placed .value characters) :
    valueKind (blankComments .code characters) = valueKind characters := by
  have stillNone : ';' ∉ placed .value (blankComments .code characters) :=
    semicolonsLast_iff.mp (semicolonsLast_iff.mpr noSemicolon).blankComments
  have noneBehind : '{' ∉ placed .value (blankComments .code characters) := by
    intro member
    obtain ⟨blanks, -, split⟩ := placed_split .value (blankComments .code characters)
    have inside : '{' ∈ blankComments .code characters := split ▸ List.mem_append_left _ member
    obtain ⟨behind, ending, whole⟩ := placed_split .value characters
    rcases isBlank_or_mem_of_mem_blankComments inside with blank | outside
    · exact absurd blank (by decide)
    · rw [whole] at outside
      rcases List.mem_append.mp outside with front | back
      · exact noBrace front
      · exact absurd (ending.of_mem back) (by decide)
  rw [valueKind_of_placed noSemicolon noBrace, valueKind_of_placed stillNone noneBehind,
    firstWord_blankComments]

/-- Comments change no lexeme, neither whether input is complete nor whether it is placed in a
function. A semicolon or a brace in a comment makes statements of an expression, and so does a
comment behind the semicolon that ends one; otherwise comments do not change how input is
used. -/
theorem only_values_depend_on_comments {text : String} {tokens : List Token}
    (read : tokenize text = .ok tokens) :
    let bare := blankComments .code text.toList
    let body := dropSemicolon (Text.trimEnd text.toList)
    (∃ same, tokenize (String.ofList bare) = .ok same ∧
      same.map Token.lexeme = tokens.map Token.lexeme) ∧
    needsWrapping bare = needsWrapping text.toList ∧
    isComplete bare = isComplete text.toList ∧
    valueKind text.toList =
      if ';' ∈ body ∨ '{' ∈ body then .statements else valueKind bare := by
  refine ⟨tokenize_blankComments read, needsWrapping_blankComments _,
    isComplete_blankComments read, ?_⟩
  split
  case isTrue structured =>
    rcases structured with semicolon | brace
    · simp [valueKind, semicolon]
    · simp [valueKind, brace]
  case isFalse plain =>
    rw [not_or] at plain
    exact (valueKind_blankComments plain.1 plain.2).symm

/-- An expression whose value is returned without its comment, and is not with it. -/
theorem a_comment_makes_statements :
    ∃ tokens, tokenize "1 + 2 /* one; two */" = .ok tokens ∧
      blankComments .code "1 + 2 /* one; two */".toList = "1 + 2  ".toList ∧
      needsWrapping "1 + 2  ".toList = needsWrapping "1 + 2 /* one; two */".toList ∧
      isComplete "1 + 2  ".toList = isComplete "1 + 2 /* one; two */".toList ∧
      valueKind "1 + 2  ".toList = .value ∧
      valueKind "1 + 2 /* one; two */".toList = .statements := by
  have tokenizes : (tokenize "1 + 2 /* one; two */").isOk = true := by decide +kernel
  cases read : tokenize "1 + 2 /* one; two */" with
  | error problem =>
    rw [read] at tokenizes
    cases tokenizes
  | ok tokens =>
    obtain ⟨-, needs, complete, kind⟩ := only_values_depend_on_comments read
    have bare : blankComments .code "1 + 2 /* one; two */".toList = "1 + 2  ".toList := by
      decide +kernel
    rw [bare] at needs complete
    rw [if_pos (by decide +kernel)] at kind
    refine ⟨tokens, rfl, bare, needs, complete, ?_, kind⟩
    rw [valueKind_of_placed (by decide +kernel) (by decide +kernel), firstWord, dropTrivia_eq]
    decide +kernel

end IncrementalC.Input
