import IncrementalC.Proofs.Input.Joining
import IncrementalC.Proofs.Syntax.Brackets
import IncrementalC.Proofs.Token.Segmentation

/-!
Contract: the brackets of typed input are those of its tokens.

Comments hold no brackets that stand in code, and of the lexemes only the brackets do. So whether
a text that can be read is complete is told by its tokens.

Owns:
- the brackets among characters, and that only these are counted;
- the brackets of trivia, of lexemes, and of all tokens of a text.

Does not own: which brackets a program has.
-/

namespace IncrementalC.Input

open Syntax (brackets bracketOf)

/-! ## Brackets among characters -/

/-- The brackets of all kinds. -/
def bracketCharacters : List Char := ['{', '}', '[', ']', '(', ')']

def isBracket (character : Char) : Bool := bracketCharacters.contains character

/-- What holds of no bracket holds of other characters only. -/
theorem not_isBracket {test : Char → Bool}
    (never : bracketCharacters.all (fun bracket => !test bracket) = true) {character : Char}
    (passes : test character = true) : isBracket character = false := by
  cases bracket : isBracket character with
  | false => rfl
  | true =>
    have fails := List.all_eq_true.mp never character (List.contains_iff_mem.mp bracket)
    rw [passes] at fails
    cases fails

theorem read?_of_not_isBracket {character : Char} (other : isBracket character = false)
    (opened : OpenBrackets) : opened.read? character = some opened := by
  unfold OpenBrackets.read?
  split <;> first | rfl | cases other

/-- Only brackets are counted. -/
theorem readAll?_filter (opened : OpenBrackets) (characters : List Char) :
    opened.readAll? (characters.filter isBracket) = opened.readAll? characters := by
  induction characters generalizing opened with
  | nil => rfl
  | cons character rest inductionHypothesis =>
    cases bracket : isBracket character with
    | false =>
      rw [List.filter_cons_of_neg (by simp [bracket]), inductionHypothesis,
        OpenBrackets.readAll?, read?_of_not_isBracket bracket]
    | true =>
      rw [List.filter_cons_of_pos bracket, OpenBrackets.readAll?, OpenBrackets.readAll?]
      cases opened.read? character with
      | none => rfl
      | some next => exact inductionHypothesis next

/-! ## Brackets of tokens -/

theorem brackets_of_lexemes {tokens : List Token} {lexemes : List Lexeme}
    (same : tokens.map Token.lexeme = lexemes) : brackets tokens = lexemes.flatMap bracketOf := by
  rw [← same, List.flatMap_map]
  rfl

theorem isBracket_of_isBlank {character : Char} (blank : Text.isBlank character = true) :
    isBracket character = false :=
  not_isBracket (by decide) blank

/-- Trivia hold no brackets that stand in code. -/
theorem brackets_of_trivia {context : TriviaContext} {characters : List Char} {count : Nat}
    (trivia : triviaLength? context characters = some count) :
    (scan (scanningOf context) characters).1.filter isBracket =
      (scan .code (characters.drop count)).1.filter isBracket := by
  fun_induction triviaLength? context characters generalizing count with
  | case1 => rw [List.drop_nil]; rfl
  | case2 rest inductionHypothesis | case3 rest inductionHypothesis
  | case10 rest inductionHypothesis =>
    obtain ⟨count, found, rfl⟩ := Option.map_eq_some_iff.mp trivia
    exact inductionHypothesis found
  | case4 head rest notLine notBlock blank inductionHypothesis =>
    obtain ⟨count, found, rfl⟩ := Option.map_eq_some_iff.mp trivia
    obtain ⟨noSlash, noQuote⟩ := isBlank_ne blank
    rw [scanningOf, scan_code_cons_fst noQuote (fun _ slash _ => noSlash slash)
      (fun _ slash _ => noSlash slash),
      List.filter_cons_of_neg (by simp [isBracket_of_isBlank blank])]
    exact inductionHypothesis found
  | case5 head rest notLine notBlock blank =>
    obtain rfl : 0 = count := Option.some.inj trivia
    rfl
  | case6 => rw [List.drop_nil]; rfl
  | case7 rest inductionHypothesis =>
    obtain ⟨count, found, rfl⟩ := Option.map_eq_some_iff.mp trivia
    rw [scanningOf, scan, if_pos rfl]
    exact inductionHypothesis found
  | case8 head rest noBreak inductionHypothesis =>
    obtain ⟨count, found, rfl⟩ := Option.map_eq_some_iff.mp trivia
    rw [scanningOf, scan, if_neg noBreak]
    exact inductionHypothesis found
  | case9 => cases trivia
  | case11 head rest unended inductionHypothesis =>
    obtain ⟨count, found, rfl⟩ := Option.map_eq_some_iff.mp trivia
    rw [scanningOf, scan_blockComment_cons unended]
    exact inductionHypothesis found

/-- Characters that the reader of typed input takes no notice of stand in code. -/
theorem scan_take_drop {characters : List Char} {count : Nat}
    (plain : ∀ character ∈ characters.take count, Plain character) :
    (scan .code characters).1 =
      characters.take count ++ (scan .code (characters.drop count)).1 := by
  induction characters generalizing count with
  | nil => rw [List.drop_nil, List.take_nil]; rfl
  | cons head tail inductionHypothesis =>
    cases count with
    | zero => rfl
    | succ count =>
      rw [List.take_succ_cons] at plain
      obtain ⟨noSlash, noQuote⟩ := plain head List.mem_cons_self
      rw [scan_code_cons_fst noQuote (fun _ slash _ => noSlash slash)
        (fun _ slash _ => noSlash slash), inductionHypothesis fun character member =>
          plain character (List.mem_cons_of_mem head member)]
      rfl

theorem isBracket_of_isWordPart {character : Char} (part : isWordPart character = true) :
    isBracket character = false :=
  not_isBracket (by decide) part

/-- What spells a lexeme holds the bracket that the lexeme is. -/
theorem brackets_of_spelledBy {lexeme : Lexeme} {spelling after : List Char}
    (spelled : lexeme.SpelledBy spelling after) : spelling.filter isBracket = bracketOf lexeme := by
  have word : ∀ {characters : List Char}, (∀ character ∈ characters, isWordPart character = true) →
      characters.filter isBracket = [] := fun parts =>
    List.filter_eq_nil_iff.mpr fun character member => by
      simp [isBracket_of_isWordPart (parts character member)]
  cases spelled with
  | keyword word => cases word <;> decide
  | identifier starts goesOn =>
    exact word (List.forall_mem_cons.mpr ⟨isWordPart_of_isWordStart starts, goesOn⟩)
  | integer some decimal =>
    exact word fun character member => by
      simp [isWordPart, Char.isAlphanum, decimal character member]
  | mark symbol => cases symbol <;> decide

/-- A lexeme stands in code as the characters that spell it. -/
theorem brackets_of_lexeme {first : Char} {rest : List Char} {lexeme : Lexeme}
    (trivia : triviaLength? .code (first :: rest) = some 0)
    (read : (readLexeme first rest).1 = .ok lexeme) :
    (scan .code (first :: rest)).1.filter isBracket = bracketOf lexeme ++
      (scan .code (rest.drop (readLexeme first rest).2)).1.filter isBracket := by
  have noQuote : first ≠ '"' := by
    rintro rfl
    cases read
  rw [scan_code_cons_fst noQuote ?_ ?_, scan_take_drop (readLexeme_plain first rest),
    ← List.cons_append, List.filter_append,
    brackets_of_spelledBy (spelledBy_of_readLexeme read trivia)]
  · rintro others rfl rfl
    simp [triviaLength?] at trivia
  · rintro others rfl rfl
    simp [triviaLength?] at trivia

/-- The brackets that stand in the code of a text are those of its tokens. -/
theorem brackets_of_tokensFrom {cursor : Cursor} {tokens : List Token}
    (read : tokensFrom cursor = .ok tokens) :
    (scan .code cursor.rest).1.filter isBracket = brackets tokens := by
  induction read using tokensFrom_ok_induction with
  | stop cursor skipped trivia ended =>
    refine (brackets_of_trivia trivia).trans ?_
    rw [ended]
    rfl
  | more cursor skipped first rest lexeme others trivia found readAs start next behind
      inductionHypothesis =>
    have bare : triviaLength? .code (first :: rest) = some 0 := found ▸ triviaLength?_drop trivia
    have nextRest : next.rest = rest.drop (readLexeme first rest).2 := by
      simp only [next, start, Cursor.advance, found, List.drop_succ_cons]
    rw [nextRest] at inductionHypothesis
    refine (brackets_of_trivia trivia).trans ?_
    rw [found, brackets_of_lexeme bare readAs, inductionHypothesis]
    rfl

/-- Whether a text is complete is told by the brackets of its tokens. -/
theorem isComplete_of_tokens {text : String} {tokens : List Token}
    (read : tokenize text = .ok tokens) :
    isComplete text.toList = true ↔
      ∀ opened, OpenBrackets.none.readAll? (brackets tokens) = some opened → opened = .none := by
  have same : OpenBrackets.none.readAll? (scan .code text.toList).1 =
      OpenBrackets.none.readAll? (brackets tokens) := by
    have standing : (scan .code text.toList).1.filter isBracket = brackets tokens :=
      brackets_of_tokensFrom read
    rw [← readAll?_filter, standing]
  have settled : (scan .code text.toList).2.isSettled = true := by
    have leaves := scan_leavesAt (.atStart text.toList)
    rw [show tokensFrom (.atStart text.toList) = .ok tokens from read] at leaves
    rcases leaves with code | comment
    · exact congrArg ScanContext.isSettled code
    · exact congrArg ScanContext.isSettled comment
  unfold isComplete
  dsimp only
  rw [same, settled]
  cases OpenBrackets.none.readAll? (brackets tokens) <;> simp

end IncrementalC.Input
