import IncrementalC.Proofs.Token.Relocation
import IncrementalC.Proofs.Token.Trivia
import Mathlib.Data.List.Chain
import Mathlib.Data.List.DropRight
import Mathlib.Data.Nat.Digits.Defs

/-!
Contract: what the tokens of a text say about its bytes.

The tokens cut the text into pieces. Each token covers the bytes that spell its lexeme, as many
as can belong to it, and what lies between two tokens is trivia. A place of a token is known from
the characters before it.

Owns:
- places known from the characters before them;
- how each lexeme is spelled in front of other characters;
- that the spans of the tokens are a segmentation of the text.

Does not own: what trivia are, or what a text without tokens is told.
-/

namespace IncrementalC

/-! ## Places -/

/-- The place behind the characters at the front of a text. -/
def Position.behind (characters : List Char) : Position where
  line := 1 + characters.count '\n'
  column := 1 + (characters.rtakeWhile (· ≠ '\n')).length
  offset := (String.ofList characters).utf8ByteSize

theorem Position.behind_concat (characters : List Char) (character : Char) :
    behind (characters ++ [character]) = (behind characters).advance character := by
  unfold behind advance
  split
  case isTrue newline =>
    subst newline
    simp [Nat.add_assoc]
    rfl
  case isFalse other =>
    simp [other, Nat.add_assoc]

theorem Position.advanceAll_first (characters : List Char) :
    first.advanceAll characters = behind characters := by
  induction characters using List.reverseRecOn with
  | nil => rfl
  | append_singleton characters character inductionHypothesis =>
    rw [advanceAll_append, inductionHypothesis, behind_concat]
    rfl

theorem Position.offset_behind_append (front more : List Char) :
    (behind (front ++ more)).offset =
      (behind front).offset + (String.ofList more).utf8ByteSize := by
  simp [behind]

theorem Position.offset_behind_lt {front more : List Char} (some : more ≠ []) :
    (behind front).offset < (behind (front ++ more)).offset := by
  rw [← advanceAll_first, ← advanceAll_first, advanceAll_append]
  obtain ⟨head, rest, rfl⟩ := List.exists_cons_of_ne_nil some
  refine Nat.lt_of_lt_of_le ?_ (offset_le_advanceAll _ rest)
  rw [offset_advance]
  exact Nat.lt_add_of_pos_right head.utf8Size_pos

/-! ## Spellings -/

/-- The characters spell the lexeme, and in front of `after` no more of them could. -/
inductive Lexeme.SpelledBy : Lexeme → (spelling after : List Char) → Prop where
  | keyword (word : Keyword) {after : List Char}
      (maximal : ∀ next ∈ after.head?, isWordPart next = false) :
      SpelledBy (.keyword word) word.spelling.toList after
  | identifier {first : Char} {rest after : List Char} (starts : isWordStart first = true)
      (goesOn : ∀ character ∈ rest, isWordPart character = true)
      (unreserved : ∀ word : Keyword, word.spelling.toList ≠ first :: rest)
      (maximal : ∀ next ∈ after.head?, isWordPart next = false) :
      SpelledBy (.identifier (String.ofList (first :: rest))) (first :: rest) after
  | integer {value : Int64} {digits after : List Char} (some : digits ≠ [])
      (decimal : ∀ character ∈ digits, character.isDigit = true)
      (denotes : value.toInt =
        (Nat.ofDigits 10 (digits.reverse.map fun digit => digit.toNat - '0'.toNat) : Nat))
      (maximal : ∀ next ∈ after.head?, next.isDigit = false) :
      SpelledBy (.integer value) digits after
  | mark (symbol : Mark) {after : List Char}
      (longest : ∀ other : Mark, other.spelling <+: symbol.spelling ++ after →
        other.spelling.length ≤ symbol.spelling.length)
      (noComment : symbol = .slash → ∀ next ∈ after.head?, next ≠ '/' ∧ next ≠ '*') :
      SpelledBy (.mark symbol) symbol.spelling after

theorem Lexeme.SpelledBy.ne_nil {lexeme : Lexeme} {spelling after : List Char}
    (spelled : lexeme.SpelledBy spelling after) : spelling ≠ [] := by
  cases spelled with
  | keyword word => cases word <;> decide
  | identifier => exact List.cons_ne_nil _ _
  | integer some => exact some
  | mark symbol => cases symbol <;> exact List.cons_ne_nil _ _

theorem decimalValue_eq (digits : List Char) :
    decimalValue digits =
      Nat.ofDigits 10 (digits.reverse.map fun digit => digit.toNat - '0'.toNat) := by
  induction digits using List.reverseRecOn with
  | nil => rfl
  | append_singleton digits digit inductionHypothesis =>
    rw [List.reverse_append, List.reverse_singleton, List.singleton_append, List.map_cons,
      Nat.ofDigits_cons, ← inductionHypothesis]
    simp only [decimalValue, List.foldl_append, List.foldl_cons, List.foldl_nil]
    omega

theorem Keyword.spelling_of_ofSpelling? {word : String} {keyword : Keyword}
    (found : ofSpelling? word = some keyword) : keyword.spelling = word := by
  have same := List.find?_some found
  exact eq_of_beq same

theorem Keyword.ne_of_ofSpelling? {word : String} (none : ofSpelling? word = none)
    (keyword : Keyword) : keyword.spelling ≠ word := by
  rintro rfl
  rw [ofSpelling?_spelling] at none
  cases none

theorem dropWhile_maximal {test : Char → Bool} (characters : List Char) :
    ∀ next ∈ (characters.dropWhile test).head?, test next = false := by
  intro next found
  have refused := List.head?_dropWhile_not test characters
  rw [Option.mem_def.mp found] at refused
  simpa using refused

theorem take_length_takeWhile (test : Char → Bool) (characters : List Char) :
    characters.take (characters.takeWhile test).length = characters.takeWhile test ∧
      characters.drop (characters.takeWhile test).length = characters.dropWhile test := by
  have taken := (List.prefix_iff_eq_take.mp (characters.takeWhile_prefix test)).symm
  have whole := characters.take_append_drop (characters.takeWhile test).length
  rw [taken] at whole
  exact ⟨taken, List.append_cancel_left (whole.trans List.takeWhile_append_dropWhile.symm)⟩

/-- A word is spelled by all of its characters. -/
theorem spelledBy_ofWord {first : Char} (starts : isWordStart first = true) (rest : List Char) :
    (Lexeme.ofWord (first :: rest.takeWhile isWordPart)).SpelledBy
      (first :: rest.takeWhile isWordPart) (rest.dropWhile isWordPart) := by
  unfold Lexeme.ofWord
  split
  case h_1 word reserved =>
    have same := Keyword.spelling_of_ofSpelling? reserved
    have spelled := Lexeme.SpelledBy.keyword word (@dropWhile_maximal isWordPart rest)
    rwa [same, String.toList_ofList] at spelled
  case h_2 free =>
    refine .identifier starts (fun character member => ?_) (fun word same => ?_)
      (dropWhile_maximal rest)
    · exact List.all_eq_true.mp List.all_takeWhile character member
    · exact Keyword.ne_of_ofSpelling? free word (by rw [← same, String.ofList_toList])

/-- A number is spelled by its digits. -/
theorem spelledBy_integer {first : Char} (digit : first.isDigit = true) (rest : List Char)
    (small : decimalValue (first :: rest.takeWhile Char.isDigit) < literalLimit) :
    (Lexeme.integer (Int64.ofNat (decimalValue (first :: rest.takeWhile Char.isDigit)))).SpelledBy
      (first :: rest.takeWhile Char.isDigit) (rest.dropWhile Char.isDigit) := by
  refine .integer (List.cons_ne_nil _ _) (List.forall_mem_cons.mpr ⟨digit, fun character member =>
    List.all_eq_true.mp List.all_takeWhile character member⟩) ?_ (dropWhile_maximal rest)
  rw [Int64.toInt_ofNat_of_lt small, decimalValue_eq]

theorem Mark.length_spelling_le (symbol : Mark) : symbol.spelling.length ≤ 2 := by
  cases symbol <;> decide

/-- A mark of one character is the longest, unless the next character makes a longer one. -/
theorem Mark.longest_of_single {symbol : Mark} {first : Char} {after : List Char}
    (single : symbol.spelling = [first])
    (alone : ∀ (other : Mark) (second : Char), other.spelling = [first, second] →
      after.head? ≠ some second) (other : Mark)
    (fits : other.spelling <+: symbol.spelling ++ after) :
    other.spelling.length ≤ symbol.spelling.length := by
  rw [single] at fits ⊢
  match spelled : other.spelling with
  | [] => exact Nat.zero_le _
  | [_] => exact Nat.le_refl _
  | [head, second] =>
    rw [spelled] at fits
    obtain ⟨rfl, more, rfl⟩ := List.cons_prefix_cons.mp fits
    exact absurd rfl (alone other second spelled)
  | _ :: _ :: _ :: _ =>
    have short := other.length_spelling_le
    rw [spelled] at short
    simp at short

theorem head?_of_code_slash {rest : List Char}
    (code : triviaLength? .code ('/' :: rest) = some 0) :
    ∀ next ∈ rest.head?, next ≠ '/' ∧ next ≠ '*' := by
  cases rest with
  | nil => simp
  | cons second rest =>
    rintro next ⟨⟩
    constructor <;> rintro rfl <;>
    · rw [triviaLength?] at code
      obtain ⟨count, -, zero⟩ := Option.map_eq_some_iff.mp code
      omega

/-- What is read at the front of a text is spelled by the characters that are taken. -/
theorem spelledBy_of_readLexeme {first : Char} {rest : List Char} {lexeme : Lexeme}
    (read : (readLexeme first rest).1 = .ok lexeme)
    (code : triviaLength? .code (first :: rest) = some 0) :
    lexeme.SpelledBy (first :: rest.take (readLexeme first rest).2)
      (rest.drop (readLexeme first rest).2) := by
  have single : ∀ symbol : Mark, symbol.spelling = [first] → (∀ (other : Mark) (second : Char),
      other.spelling = [first, second] → rest.head? ≠ some second) →
      (Lexeme.mark symbol).SpelledBy [first] rest := by
    intro symbol spelled alone
    rw [← spelled]
    refine .mark symbol (Mark.longest_of_single spelled alone) ?_
    rintro rfl
    obtain rfl := (List.cons.inj spelled).1
    exact head?_of_code_slash code
  have double : ∀ (symbol : Mark) (second : Char), symbol.spelling = [first, second] →
      rest.head? = some second →
      (Lexeme.mark symbol).SpelledBy (first :: rest.take 1) (rest.drop 1) := by
    intro symbol second spelled next
    obtain ⟨others, rfl⟩ := List.head?_eq_some_iff.mp next
    have long : symbol.spelling.length = 2 := by rw [spelled]; rfl
    have whole := @Lexeme.SpelledBy.mark symbol others
      (fun other _ => long ▸ other.length_spelling_le) (by rintro rfl; cases spelled)
    rwa [spelled] at whole
  unfold readLexeme at read ⊢
  split at read
  case h_1 | h_2 | h_3 | h_4 | h_5 | h_6 | h_7 | h_8 | h_9 | h_10 | h_11 =>
    cases read
    exact single _ rfl fun other second spelled => by cases other <;> cases spelled
  case h_12 | h_13 | h_14 | h_15 =>
    dsimp only at read ⊢
    split at read
    · rename_i next
      rw [if_pos next]
      cases read
      exact double _ _ rfl next
    · rename_i next
      rw [if_neg next]
      cases read
      refine single _ rfl fun other second spelled => ?_
      cases other <;> cases spelled
      exact next
  case h_16 | h_17 =>
    dsimp only at read ⊢
    split at read
    · rename_i next
      rw [if_pos next]
      cases read
      exact double _ _ rfl next
    · cases read
  case h_18 =>
    split at read
    · rename_i digit
      dsimp only at read
      split at read
      · rename_i small
        cases read
        rw [if_pos digit]
        dsimp only
        rw [(take_length_takeWhile _ rest).1, (take_length_takeWhile _ rest).2]
        exact spelledBy_integer digit rest small
      · cases read
    · split at read
      · rename_i noDigit starts
        cases read
        rw [if_neg noDigit, if_pos starts]
        dsimp only
        rw [(take_length_takeWhile _ rest).1, (take_length_takeWhile _ rest).2]
        exact spelledBy_ofWord starts rest
      · cases read

/-! ## Pieces -/

/-- The tokens cut `rest`, in front of which stand the characters `before`, into pieces. -/
inductive Pieces : (before rest : List Char) → List Token → Prop where
  | stop {before gap : List Char} {stopsInLine : Bool} (trivia : Trivia stopsInLine gap) :
      Pieces before gap [⟨.endOfInput, .emptyAt (.behind (before ++ gap))⟩]
  | token {before gap spelling after : List Char} {lexeme : Lexeme} {others : List Token}
      (trivia : Trivia false gap) (spelled : lexeme.SpelledBy spelling after)
      (behind : Pieces (before ++ gap ++ spelling) after others) :
      Pieces before (gap ++ spelling ++ after)
        (⟨lexeme, ⟨.behind (before ++ gap), .behind (before ++ gap ++ spelling)⟩⟩ :: others)

theorem Cursor.position_advance {cursor : Cursor} {before : List Char}
    (here : cursor.position = .behind before) (count : Nat) :
    (cursor.advance count).position = .behind (before ++ cursor.rest.take count) := by
  rw [← Position.advanceAll_first, Position.advanceAll_append, Position.advanceAll_first, ← here]
  rfl

/-- A token that is read stands behind trivia and is spelled by what is taken. -/
theorem split_of_readLexeme {characters rest : List Char} {first : Char} {skipped : Nat}
    {lexeme : Lexeme} (trivia : triviaLength? .code characters = some skipped)
    (found : characters.drop skipped = first :: rest)
    (readAs : (readLexeme first rest).1 = .ok lexeme) :
    Trivia false (characters.take skipped) ∧
      lexeme.SpelledBy (first :: rest.take (readLexeme first rest).2)
        (rest.drop (readLexeme first rest).2) ∧
      characters.take skipped ++ (first :: rest.take (readLexeme first rest).2) ++
        rest.drop (readLexeme first rest).2 = characters := by
  obtain ⟨stopsInLine, gap, ended⟩ := trivia_of_length trivia
  obtain rfl : stopsInLine = false := by
    cases stopsInLine with
    | false => rfl
    | true => exact absurd (found.symm.trans (ended rfl)) (List.cons_ne_nil _ _)
  have code : triviaLength? .code (first :: rest) = some 0 := found ▸ triviaLength?_drop trivia
  refine ⟨gap, spelledBy_of_readLexeme readAs code, ?_⟩
  rw [List.append_assoc, List.cons_append, List.take_append_drop, ← found, List.take_append_drop]

/-- The tokens that are read cut the text into pieces. -/
theorem pieces_of_tokensFrom {cursor : Cursor} {tokens : List Token}
    (read : tokensFrom cursor = .ok tokens) :
    ∀ before, cursor.position = .behind before → Pieces before cursor.rest tokens := by
  induction read using tokensFrom_ok_induction with
  | stop cursor skipped trivia blank =>
    intro before here
    obtain ⟨stopsInLine, gap, -⟩ := trivia_of_length trivia
    have all : cursor.rest.take skipped = cursor.rest :=
      List.take_of_length_le (List.drop_eq_nil_iff.mp blank)
    rw [Cursor.position_advance here, all]
    rw [all] at gap
    exact .stop gap
  | more cursor skipped first rest lexeme others trivia found readAs start next behind
      inductionHypothesis =>
    intro before here
    obtain ⟨gap, spelled, split⟩ := split_of_readLexeme trivia found readAs
    have startRest : start.rest = first :: rest := found
    have startsAt : start.position = .behind (before ++ cursor.rest.take skipped) :=
      Cursor.position_advance here skipped
    have nextAt : next.position = .behind (before ++ cursor.rest.take skipped ++
        (first :: rest.take (readLexeme first rest).2)) := by
      have taken := Cursor.position_advance startsAt ((readLexeme first rest).2 + 1)
      rwa [startRest, List.take_succ_cons] at taken
    have nextRest : next.rest = rest.drop (readLexeme first rest).2 := by
      simp only [next, Cursor.advance, startRest, List.drop_succ_cons]
    have pieces := inductionHypothesis _ nextAt
    rw [nextRest] at pieces
    have whole := Pieces.token gap spelled pieces
    rw [← startsAt, ← nextAt, split] at whole
    exact whole

/-! ## Bytes -/

/-- The bytes of the text from one offset to another encode the characters. -/
def HoldsBetween (text : String) (start stop : Nat) (characters : List Char) : Prop :=
  text.toByteArray.extract start stop = (String.ofList characters).toByteArray

theorem holdsBetween_of_split {text : String} {before middle after : List Char}
    (split : text.toList = before ++ middle ++ after) :
    HoldsBetween text (Position.behind before).offset (Position.behind (before ++ middle)).offset
      middle := by
  have bytes : text.toByteArray = (String.ofList before).toByteArray ++
      ((String.ofList middle).toByteArray ++ (String.ofList after).toByteArray) := by
    rw [← String.ofList_toList (s := text), split, List.append_assoc]
    simp only [String.ofList_append, String.toByteArray_append]
  rw [HoldsBetween, bytes, Position.offset_behind_append]
  refine (ByteArray.extract_append_size_add' (i := 0) rfl).trans ?_
  exact ByteArray.extract_append_eq_left rfl

/-- Only trivia lie between the offset and the token. A line comment without its line break can
only be the last of a text. -/
def GapBefore (text : String) (offset : Nat) (token : Token) : Prop :=
  ∃ gap stopsInLine, HoldsBetween text offset token.span.start.offset gap ∧
    Trivia stopsInLine gap ∧ (stopsInLine = true → token.lexeme = .endOfInput)

/-- The tokens are a segmentation of the text. -/
structure Segmentation (text : String) (tokens : List Token) : Prop where
  /-- The last token is the end of the text, which no other is. -/
  ended : ∃ others, tokens = others ++ [⟨.endOfInput, .emptyAt (.behind text.toList)⟩] ∧
    ∀ token ∈ others, token.lexeme ≠ .endOfInput
  nonempty : ∀ token ∈ tokens, token.lexeme ≠ .endOfInput →
    token.span.start.offset < token.span.stop.offset
  ordered : tokens.Pairwise fun earlier later =>
    earlier.span.stop.offset ≤ later.span.start.offset
  spelled : ∀ token ∈ tokens, token.lexeme ≠ .endOfInput → ∃ spelling after,
    HoldsBetween text token.span.start.offset token.span.stop.offset spelling ∧
    HoldsBetween text token.span.stop.offset text.utf8ByteSize after ∧
    token.lexeme.SpelledBy spelling after
  leading : ∀ token ∈ tokens.head?, GapBefore text 0 token
  gaps : tokens.IsChain fun earlier later => GapBefore text earlier.span.stop.offset later
  placed : ∀ token ∈ tokens, ∀ place ∈ [token.span.start, token.span.stop],
    ∃ before, before <+: text.toList ∧ place = .behind before

section

variable {before rest : List Char} {tokens : List Token}

theorem Pieces.ended (pieces : Pieces before rest tokens) :
    ∃ others, tokens = others ++ [⟨.endOfInput, .emptyAt (.behind (before ++ rest))⟩] ∧
      ∀ token ∈ others, token.lexeme ≠ .endOfInput := by
  induction pieces with
  | stop trivia => exact ⟨[], rfl, by simp⟩
  | @token before gap spelling after lexeme others trivia spelled behind inductionHypothesis =>
    obtain ⟨others, rfl, apart⟩ := inductionHypothesis
    refine ⟨⟨lexeme, .behind (before ++ gap), .behind (before ++ gap ++ spelling)⟩ :: others,
      by simp, List.forall_mem_cons.mpr ⟨?_, apart⟩⟩
    rintro ⟨⟩
    cases spelled

/-- Each token is a piece of the text. -/
theorem Pieces.of_mem (pieces : Pieces before rest tokens) {token : Token}
    (member : token ∈ tokens) :
    ∃ front spelling after, before ++ rest = front ++ spelling ++ after ∧ before <+: front ∧
      token.span = ⟨.behind front, .behind (front ++ spelling)⟩ ∧
      (token.lexeme ≠ .endOfInput → token.lexeme.SpelledBy spelling after) := by
  induction pieces with
  | @stop before gap _ trivia =>
    obtain rfl := List.mem_singleton.mp member
    exact ⟨before ++ gap, [], [], by simp, List.prefix_append _ _, by rw [List.append_nil]; rfl,
      fun other => absurd rfl other⟩
  | @token before gap spelling after _ _ trivia spelled behind inductionHypothesis =>
    rcases List.mem_cons.mp member with rfl | later
    · exact ⟨before ++ gap, spelling, after, by simp, List.prefix_append _ _, rfl, fun _ => spelled⟩
    · obtain ⟨front, spelling', after', split, further, placed, spelled'⟩ :=
        inductionHypothesis later
      refine ⟨front, spelling', after', ?_, ?_, placed, spelled'⟩
      · rw [← split]
        simp
      · rw [List.append_assoc] at further
        exact (List.prefix_append _ _).trans further

theorem Position.offset_behind_le {front longer : List Char} (leads : front <+: longer) :
    (behind front).offset ≤ (behind longer).offset := by
  obtain ⟨more, rfl⟩ := leads
  rw [offset_behind_append]
  exact Nat.le_add_right _ _

theorem Pieces.ordered (pieces : Pieces before rest tokens) : tokens.Pairwise fun earlier later =>
    earlier.span.stop.offset ≤ later.span.start.offset := by
  induction pieces with
  | stop trivia => exact List.pairwise_singleton _ _
  | token trivia spelled behind inductionHypothesis =>
    refine List.pairwise_cons.mpr ⟨fun later member => ?_, inductionHypothesis⟩
    obtain ⟨front, _, _, -, further, placed, -⟩ := behind.of_mem member
    rw [placed]
    exact Position.offset_behind_le further

/-- Trivia lie before the first token and between any two. -/
theorem Pieces.gaps {text : String} (pieces : Pieces before rest tokens)
    (split : text.toList = before ++ rest) :
    (∀ token ∈ tokens.head?, GapBefore text (Position.behind before).offset token) ∧
      tokens.IsChain fun earlier later => GapBefore text earlier.span.stop.offset later := by
  induction pieces with
  | @stop before gap stopsInLine trivia =>
    refine ⟨?_, .singleton _⟩
    rintro token ⟨⟩
    exact ⟨gap, stopsInLine, holdsBetween_of_split (by rw [split, List.append_nil]), trivia,
      fun _ => rfl⟩
  | @token before gap spelling after lexeme others trivia spelled behind inductionHypothesis =>
    obtain ⟨next, chain⟩ := inductionHypothesis (by simp [split])
    constructor
    · rintro token ⟨⟩
      exact ⟨gap, false, holdsBetween_of_split (by rw [split, List.append_assoc gap,
        ← List.append_assoc]), trivia, by simp⟩
    · exact List.isChain_cons.mpr ⟨next, chain⟩

end

/-- The tokens of every text are a segmentation of it. -/
theorem tokens_cut_the_text {text : String} {tokens : List Token}
    (read : tokenize text = .ok tokens) : Segmentation text tokens := by
  have pieces : Pieces [] text.toList tokens := pieces_of_tokensFrom read [] rfl
  obtain ⟨leading, gaps⟩ := pieces.gaps rfl
  refine ⟨pieces.ended, fun token member other => ?_, pieces.ordered,
    fun token member other => ?_, leading, gaps, fun token member place which => ?_⟩
  all_goals obtain ⟨front, spelling, after, split, -, placed, spelled⟩ := pieces.of_mem member
  all_goals rw [List.nil_append] at split
  · rw [placed]
    exact Position.offset_behind_lt (spelled other).ne_nil
  · have size : text.utf8ByteSize = (Position.behind (front ++ spelling ++ after)).offset := by
      rw [← split, Position.behind, String.ofList_toList]
    rw [placed, size]
    exact ⟨spelling, after, holdsBetween_of_split split,
      holdsBetween_of_split (by rw [List.append_nil, split]), spelled other⟩
  · rw [split]
    rw [placed] at which
    rcases List.mem_pair.mp which with rfl | rfl
    · exact ⟨front, by simp, rfl⟩
    · exact ⟨front ++ spelling, List.prefix_append _ _, rfl⟩

/-- A comment whose first star does not end it holds a character of two bytes. -/
theorem tokens_cut_comments_and_lines :
    let text := "/*/π*/x\n<=9//"
    let tokens : List Token :=
      [⟨.identifier "x", ⟨1, 7, 7⟩, ⟨1, 8, 8⟩⟩, ⟨.mark .lessEqual, ⟨2, 1, 9⟩, ⟨2, 3, 11⟩⟩,
        ⟨.integer 9, ⟨2, 3, 11⟩, ⟨2, 4, 12⟩⟩, ⟨.endOfInput, ⟨2, 6, 14⟩, ⟨2, 6, 14⟩⟩]
    tokenize text = .ok tokens ∧ Segmentation text tokens := by
  intro text tokens
  have read : tokenize text = .ok tokens := ok_of_toOption (by decide +kernel)
  exact ⟨read, tokens_cut_the_text read⟩

end IncrementalC
