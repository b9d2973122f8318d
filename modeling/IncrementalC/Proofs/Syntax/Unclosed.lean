import IncrementalC.Proofs.Syntax.Brackets
import IncrementalC.Proofs.Syntax.Continuation
import IncrementalC.Proofs.Syntax.Program

/-!
Contract: where the tokens end for a reader that misses one.

A reader that misses a token has read all the others. Those of an expression or a signature are
no braces, and among those of statements as many braces are opened as closed. So a program that
is unfinished behind a closing brace has an open one.

Owns:
- what the tokens are if a reader misses one, for each reader up to whole programs.

Does not own: which readers succeed, or what they report.
-/

namespace IncrementalC.Syntax

theorem InExpression.unended {tokens : List Token} (within : InExpression tokens) :
    Unended tokens := by
  intro token member ended
  have possible := within token member
  rw [ended] at possible
  cases possible

theorem SpellsInitial.within {allowance : Nat} {tokens : List Token} {initial : Option Expression}
    (initialized : SpellsInitial allowance tokens initial) : InExpression tokens := by
  cases initialized with
  | none => exact inExpression_nil
  | some expression => exact inExpression_cons.mpr ⟨rfl, expression.within⟩

theorem SpellsParameterList.braceless {tokens : List Token} {list : List Parameter}
    (spelled : SpellsParameterList tokens list) :
    ∀ token ∈ tokens, braceStep token.lexeme = 0 := by
  induction spelled with
  | last => simp [braceStep]
  | more rest inductionHypothesis => simpa [braceStep] using inductionHypothesis

theorem SpellsParameters.unended {tokens : List Token} {list : List Parameter}
    (spelled : SpellsParameters tokens list) : Unended tokens := by
  cases spelled with
  | none => exact unended_nil
  | void => simp
  | list spelled => exact spelled.unended

theorem SpellsParameters.braceless {tokens : List Token} {list : List Parameter}
    (spelled : SpellsParameters tokens list) : ∀ token ∈ tokens, braceStep token.lexeme = 0 := by
  cases spelled with
  | none => simp
  | void => simp [braceStep]
  | list spelled => exact spelled.braceless

namespace Parser

/-! ## Missing tokens -/

theorem beforeEnd_cons {token : Token} (more : token.lexeme ≠ .endOfInput) (rest : List Token) :
    beforeEnd (token :: rest) = token :: beforeEnd rest :=
  List.takeWhile_cons_of_pos (by simpa using more)

theorem beforeEnd_of_ended {tokens : List Token} (ended : nextLexeme tokens = .endOfInput) :
    beforeEnd tokens = [] :=
  beforeEnd_append unended_nil ended

theorem beforeEnd_unended {taken : List Token} (unended : Unended taken) (rest : List Token) :
    beforeEnd (taken ++ rest) = taken ++ beforeEnd rest :=
  List.takeWhile_append_of_pos (by simpa [Unended] using unended)

theorem bind_eq_incomplete_iff {α β : Type} {reader : Parser α} {next : α → Parser β}
    {tokens : List Token} :
    (reader >>= next) tokens = .error .incomplete ↔ reader tokens = .error .incomplete ∨
      ∃ value between, reader tokens = .ok (value, between) ∧
        next value between = .error .incomplete := by
  simp only [bind]
  cases reader tokens with
  | error problem => simp
  | ok finished => simp [Prod.ext_iff, and_assoc]

/-- On texts of at most `length` tokens, if `reader` misses a token then those before the end of
input are such. -/
def Lacks {α : Type} (length : Nat) (reader : Parser α) (holds : List Token → Prop) : Prop :=
  ∀ ⦃tokens : List Token⦄, tokens.length ≤ length → reader tokens = .error .incomplete →
    holds (beforeEnd tokens)

section

variable {α β : Type} {length : Nat} {reader : Parser α} {holds others : List Token → Prop}
  {spells : List Token → α → Prop}

theorem Lacks.mono (lacks : Lacks length reader holds)
    (implied : ∀ {tokens}, holds tokens → others tokens) : Lacks length reader others :=
  fun _ short missing => implied (lacks short missing)

theorem Lacks.shorter {fewer : Nat} (lacks : Lacks length reader holds)
    (bounded : fewer ≤ length) : Lacks fewer reader holds :=
  fun _ short missing => lacks (Nat.le_trans short bounded) missing

theorem pure_lacks (value : α) : Lacks length (pure value : Parser α) holds :=
  fun _ _ missing => by cases missing

/-- Nesting that is too deep is reported, whatever is missing. -/
theorem tooDeep_lacks : Lacks length (tooDeep : Parser α) holds :=
  fun _ _ missing => by cases missing

theorem fail_eq_incomplete {problem : SyntaxProblem} {tokens : List Token}
    (missing : (fail problem : Parser α) tokens = .error .incomplete) :
    nextLexeme tokens = .endOfInput := by
  by_cases ended : nextLexeme tokens = .endOfInput
  · exact ended
  · have reported : (fail problem : Parser α) tokens = reject problem _ tokens :=
      congrFun (if_neg ended) tokens
    cases reported.symm.trans missing

/-- Only the end of input is missing something. -/
theorem fail_lacks (problem : SyntaxProblem) :
    Lacks length (fail problem : Parser α) (· = []) :=
  fun _ _ missing => beforeEnd_of_ended (fail_eq_incomplete missing)

/-- What misses a token behind what `reader` takes. -/
theorem Reads.lacks {next : α → Parser β} (reads : Reads length reader spells)
    (first : Lacks length reader holds)
    (second : ∀ {taken value}, spells taken value → Unended taken ∧
      Lacks length (next value) fun rest => holds (taken ++ rest)) :
    Lacks length (reader >>= next) holds := by
  intro tokens short missing
  rcases bind_eq_incomplete_iff.mp missing with here | ⟨value, between, read, behind⟩
  · exact first short here
  · obtain ⟨taken, rfl, spelled⟩ := reads short read
    obtain ⟨unended, lacks⟩ := second spelled
    rw [beforeEnd_unended unended]
    exact lacks (Nat.le_trans (by simp) short) behind

/-- What misses a token behind a lexeme that is taken if it stands at the front. -/
theorem acceptElse_lacks {lexeme : Lexeme} (real : lexeme ≠ .endOfInput)
    (longer : ∀ {span rest}, holds rest → holds (⟨lexeme, span⟩ :: rest))
    {next otherwise : Parser α} (behind : ∀ fewer < length, Lacks fewer next holds)
    (without : Lacks length otherwise holds) :
    Lacks length (do if ← accept lexeme then next else otherwise) holds := by
  intro tokens short missing
  by_cases stands : nextLexeme tokens = lexeme
  · obtain ⟨span, others, rfl⟩ := exists_of_nextLexeme stands real
    rw [bind_accept_cons real] at missing
    rw [beforeEnd_cons real]
    exact longer (behind _ short (Nat.le_refl _) missing)
  · rw [bind_accept_of_ne _ _ stands] at missing
    exact without short missing

theorem finish_lacks {finish : α → β} (lacks : Lacks length reader holds) :
    Lacks length (do return finish (← reader) : Parser β) holds := by
  intro tokens short missing
  rcases bind_eq_incomplete_iff.mp missing with here | ⟨value, between, -, finished⟩
  · exact lacks short here
  · cases finished

end

/-! ## Single tokens -/

section

variable {length : Nat}

theorem expect_reads (symbol : Mark) (expectation : Expectation) :
    Reads length (expect symbol expectation) fun taken span =>
      taken = [⟨.mark symbol, span⟩] := by
  intro tokens span rest _ read
  exact ⟨_, expect_eq_ok_iff.mp read, rfl⟩

theorem expect_lacks (symbol : Mark) (expectation : Expectation) :
    Lacks length (expect symbol expectation) (· = []) := by
  intro tokens short missing
  by_cases next : nextLexeme tokens = .mark symbol
  · obtain ⟨span, rest, rfl⟩ := exists_of_nextLexeme next (by simp)
    cases (expect_eq_ok_iff.mpr rfl).symm.trans missing
  · exact fail_lacks _ short ((congrFun (if_neg next) tokens).symm.trans missing)

theorem identifier_lacks : Lacks length identifier (· = []) := by
  intro tokens short missing
  rcases tokens with _ | ⟨⟨lexeme, span⟩, rest⟩
  · rfl
  · by_cases named : ∃ name, lexeme = .identifier name
    · obtain ⟨name, rfl⟩ := named
      cases (identifier_eq_ok_iff.mpr rfl).symm.trans missing
    · rw [identifier_cons_of_ne (not_exists.mp named)] at missing
      exact fail_lacks _ short missing

end

/-! ## Expressions -/

section

variable {length bound allowance : Nat} {reader : Parser Expression}

/-- What misses a token behind parts of expressions. -/
theorem lacks_behind {α β : Type} {reader : Parser α} {next : α → Parser β}
    {spells : List Token → α → Prop} (reads : Reads length reader spells)
    (within : ∀ {taken value}, spells taken value → InExpression taken)
    (first : Lacks length reader InExpression)
    (second : ∀ value, Lacks length (next value) InExpression) :
    Lacks length (reader >>= next) InExpression :=
  reads.lacks first fun spelled => ⟨(within spelled).unended,
    (second _).mono fun rest => inExpression_append.mpr ⟨within spelled, rest⟩⟩

/-- What stands before a closing mark may miss a token, or the mark is missing. -/
theorem closed_lacks {α β : Type} {reader : Parser α} {spells : List Token → α → Prop}
    {symbol : Mark} {finish : α → Span → β} (reads : Reads length reader spells)
    (within : ∀ {taken value}, spells taken value → InExpression taken)
    (first : Lacks length reader InExpression) :
    Lacks length (do
      let value ← reader
      let closing ← expectMark symbol
      return finish value closing : Parser β) InExpression := by
  refine lacks_behind reads within first fun value => ?_
  refine (expect_reads symbol _).lacks ((expect_lacks symbol _).mono ?_) ?_
  · rintro _ rfl
    exact inExpression_nil
  · rintro _ closing rfl
    exact ⟨by simp, pure_lacks _⟩

/-- By induction on the rounds: each takes the operator at hand. -/
theorem leftAssociative_lacks {level : OperatorLevel} {levels : List OperatorLevel}
    (known : level :: levels ⊆ operatorLevels)
    (reads : Reads length reader (SpellsOperators allowance levels))
    (lacks : Lacks length reader InExpression) : (bound : Nat) → ∀ left,
      Lacks length (leftAssociative level reader bound left) InExpression
  | 0, _ => pure_lacks _
  | bound + 1, left => by
    intro tokens short missing
    cases found : operatorOf? level (nextLexeme tokens) with
    | none => cases (leftAssociative_of_none found (bound + 1)).symm.trans missing
    | some operator =>
      obtain ⟨symbol, next, denotes⟩ := mark_of_operatorOf? found
      obtain ⟨sign, others, rfl⟩ := exists_of_nextLexeme next (by simp)
      rw [leftAssociative_operator denotes] at missing
      have behind := lacks_behind reads
        (fun spelled => spelled.within fun _ member => known (List.mem_cons_of_mem _ member)) lacks
        (fun right => leftAssociative_lacks known reads lacks bound
          (.binary operator left right (left.span.through right.span)))
        (Nat.le_of_succ_le short) missing
      rw [beforeEnd_cons (by simp)]
      exact inExpression_cons.mpr
        ⟨inExpression_of_operator (known List.mem_cons_self) denotes, behind⟩

theorem binaryLevels_lacks (reads : Reads length reader (SpellsOperand allowance))
    (lacks : Lacks length reader InExpression) : (levels : List OperatorLevel) →
      levels ⊆ operatorLevels → Lacks length (binaryLevels bound reader levels) InExpression
  | [], _ => lacks
  | level :: tighter, known =>
    have deeper := fun _ member => known (List.mem_cons_of_mem level member)
    have tighterReads := binaryLevels_reads reads tighter
    have tighterLacks := binaryLevels_lacks reads lacks tighter deeper
    lacks_behind tighterReads (fun spelled => spelled.within deeper) tighterLacks
      fun left => leftAssociative_lacks known tighterReads tighterLacks bound left

/-- By induction on the rounds: each but the last takes a comma. -/
theorem commaSeparated_lacks : (bound : Nat) → {length : Nat} →
    Reads length reader (SpellsExpression allowance) → Lacks length reader InExpression →
    Lacks length (commaSeparated reader bound) InExpression
  | 0, _, _, _ => pure_lacks _
  | bound + 1, _, reads, lacks =>
    lacks_behind reads (fun spelled => spelled.within) lacks fun _ =>
      acceptElse_lacks (by simp) (fun rest => inExpression_cons.mpr ⟨rfl, rest⟩)
        (fun _ fewer => finish_lacks (commaSeparated_lacks bound
          (reads.shorter (Nat.le_of_lt fewer)) (lacks.shorter (Nat.le_of_lt fewer))))
        (pure_lacks _)

theorem primary_lacks (bounded : length ≤ bound)
    (reads : Reads length reader (SpellsExpression allowance))
    (lacks : Lacks length reader InExpression) :
    Lacks length (primary bound reader) InExpression := by
  intro tokens short missing
  rcases tokens with _ | ⟨⟨lexeme, start⟩, others⟩
  · exact inExpression_nil
  cases lexeme with
  | integer value => cases missing
  | identifier name =>
    by_cases called : nextLexeme others = .mark .openParen
    · obtain ⟨opening, inside, rfl⟩ := exists_of_nextLexeme called (by simp)
      by_cases emptied : nextLexeme inside = .mark .closeParen
      · obtain ⟨closing, after, rfl⟩ := exists_of_nextLexeme emptied (by simp)
        cases missing
      · rw [primary_call emptied] at missing
        have fewer : inside.length < length :=
          Nat.lt_of_lt_of_le (Nat.lt_succ_of_lt (Nat.lt_succ_self _)) short
        have given := closed_lacks (commaSeparated_reads bound
          (reads.shorter (Nat.le_of_lt fewer)) (Nat.lt_of_lt_of_le fewer bounded))
          (fun spelled => spelled.within)
          (commaSeparated_lacks bound (reads.shorter (Nat.le_of_lt fewer))
            (lacks.shorter (Nat.le_of_lt fewer))) (Nat.le_refl _) missing
        rw [beforeEnd_cons (by simp), beforeEnd_cons (by simp)]
        simp [inExpression, given]
    · rw [primary_name called] at missing
      cases missing
  | mark symbol =>
    by_cases group : symbol = .openParen
    · subst group
      rw [primary_group] at missing
      have inside := closed_lacks reads (fun spelled => spelled.within) lacks
        (Nat.le_of_succ_le short) missing
      rw [beforeEnd_cons (by simp)]
      simp [inExpression, inside]
    · cases symbol <;> first | cases missing | exact absurd rfl group
  | keyword word => cases missing
  | endOfInput =>
    rw [beforeEnd_of_ended (by simp)]
    exact inExpression_nil

theorem operand_lacks {nested base : Parser Expression}
    (nestedLacks : Lacks length nested InExpression) (baseLacks : Lacks length base InExpression) :
    Lacks length (operand nested base) InExpression := by
  intro tokens short missing
  cases found : unaryOperatorOf? (nextLexeme tokens) with
  | none =>
    rw [operand_of_none found] at missing
    exact baseLacks short missing
  | some operator =>
    rcases tokens with _ | ⟨⟨lexeme, sign⟩, others⟩
    · cases found
    rw [nextLexeme_cons] at found
    have known : inExpression lexeme = true ∧ lexeme ≠ .endOfInput := by
      rcases unaryOperatorOf?_eq_some found with ⟨next, -⟩ | ⟨next, -⟩ <;>
        rw [show lexeme = _ from next] <;> simp [inExpression]
    rw [operand_operator found known.2] at missing
    rw [beforeEnd_cons known.2]
    exact inExpression_cons.mpr
      ⟨known.1, finish_lacks nestedLacks (Nat.le_of_succ_le short) missing⟩

theorem assignment_lacks {nested : Parser Expression}
    (reads : Reads length reader (SpellsOperand allowance))
    (lacks : Lacks length reader InExpression) (nestedLacks : Lacks length nested InExpression) :
    Lacks length (assignment bound reader nested) InExpression :=
  lacks_behind (binaryLevels_reads reads operatorLevels)
    (fun spelled => spelled.within (List.Subset.refl _))
    (binaryLevels_lacks reads lacks operatorLevels (List.Subset.refl _)) fun _ =>
      acceptElse_lacks (by simp) (fun rest => inExpression_cons.mpr ⟨rfl, rest⟩)
        (fun _ fewer => finish_lacks (nestedLacks.shorter (Nat.le_of_lt fewer))) (pure_lacks _)

/-- By induction on the nesting allowed: a level more adds the readers of one level. -/
theorem expression_unary_lacks (bounded : length ≤ bound) (allowance : Nat) :
    Lacks length (expression bound allowance) InExpression ∧
      Lacks length (unary bound allowance) InExpression := by
  induction allowance with
  | zero =>
    exact ⟨tooDeep_lacks, operand_lacks tooDeep_lacks
      (primary_lacks bounded (@tooDeep_reads _ _ (SpellsExpression 0)) tooDeep_lacks)⟩
  | succ allowance inductionHypothesis =>
    obtain ⟨nestedLacks, unaryLacks⟩ := inductionHypothesis
    obtain ⟨nestedReads, unaryReads⟩ := expression_unary_reads bounded allowance
    have lacks : Lacks length (expression bound (allowance + 1)) InExpression :=
      assignment_lacks unaryReads unaryLacks nestedLacks
    exact ⟨lacks, operand_lacks unaryLacks
      (primary_lacks bounded (expression_reads bounded (allowance + 1)) lacks)⟩

theorem expression_lacks (bounded : length ≤ bound) (allowance : Nat) :
    Lacks length (expression bound allowance) InExpression :=
  (expression_unary_lacks bounded allowance).1

theorem initialValue?_lacks (lacks : Lacks length reader InExpression) :
    Lacks length (initialValue? reader) InExpression :=
  acceptElse_lacks (by simp) (fun rest => inExpression_cons.mpr ⟨rfl, rest⟩)
    (fun _ fewer => finish_lacks (lacks.shorter (Nat.le_of_lt fewer))) (pure_lacks _)

theorem condition_lacks (reads : Reads length reader (SpellsExpression allowance))
    (lacks : Lacks length reader InExpression) :
    Lacks length (condition reader) InExpression := by
  refine lacks_behind (expect_reads .openParen _) ?_ ((expect_lacks .openParen _).mono ?_)
    fun _ => closed_lacks reads (fun spelled => spelled.within) lacks
  · rintro _ opening rfl
    simp [inExpression]
  · rintro _ rfl
    exact inExpression_nil

end

/-! ## Statements -/

/-- At least as many braces are opened as closed. -/
def OpensEnough (tokens : List Token) : Prop := 0 ≤ braceDepth tokens

theorem InExpression.opensEnough {tokens : List Token} (within : InExpression tokens) :
    OpensEnough tokens := Int.le_of_eq within.balanced.level.symm

theorem OpensEnough.append {before after : List Token} (level : braceDepth before = 0)
    (opens : OpensEnough after) : OpensEnough (before ++ after) := by
  rw [OpensEnough, braceDepth_append, level, Int.zero_add]
  exact opens

/-- A token that is no brace may stand in front. -/
theorem OpensEnough.cons {token : Token} {rest : List Token}
    (plain : braceStep token.lexeme = 0) (opens : OpensEnough rest) :
    OpensEnough (token :: rest) := by
  rw [OpensEnough, braceDepth_cons, plain, Int.zero_add]
  exact opens

section

variable {length bound allowance : Nat} {reader : Parser Expression} {nested : Parser Statement}

theorem ReadsStatement.reads (reads : ReadsStatement length allowance nested) :
    Reads length nested fun taken result =>
      ∃ dangling, SpellsStatement allowance dangling taken result := by
  intro tokens result rest short read
  obtain ⟨taken, dangling, split, spelled, -⟩ := reads short read
  exact ⟨taken, split, dangling, spelled⟩

theorem statement_behind {β : Type} {next : Statement → Parser β}
    (reads : ReadsStatement length allowance nested) (first : Lacks length nested OpensEnough)
    (second : ∀ value, Lacks length (next value) OpensEnough) :
    Lacks length (nested >>= next) OpensEnough := by
  refine reads.reads.lacks first ?_
  rintro taken value ⟨dangling, spelled⟩
  exact ⟨spelled.unended, (second value).mono fun rest => .append spelled.balanced.level rest⟩

theorem condition_behind {β : Type} {next : Expression → Parser β}
    (reads : Reads length reader (SpellsExpression allowance))
    (lacks : Lacks length reader InExpression)
    (second : ∀ value, Lacks length (next value) OpensEnough) :
    Lacks length (condition reader >>= next) OpensEnough :=
  (condition_reads reads).lacks ((condition_lacks reads lacks).mono InExpression.opensEnough)
    fun spelled => ⟨spelled.unended,
      (second _).mono fun rest => .append spelled.balanced.level rest⟩

/-- By induction on the rounds: each but the last takes a statement. -/
theorem statementsToClose_lacks : (bound : Nat) → {length : Nat} → length ≤ bound →
    ReadsStatement length allowance nested → Lacks length nested OpensEnough →
    Lacks length (statementsToClose nested bound) OpensEnough
  | 0, length, bounded, _, _ => by
    intro tokens short _
    obtain rfl := List.length_eq_zero_iff.mp (Nat.le_zero.mp (Nat.le_trans short bounded))
    exact Int.le_refl 0
  | bound + 1, length, bounded, reads, lacks => by
    intro tokens short missing
    by_cases closed : nextLexeme tokens = .mark .closeBrace
    · obtain ⟨closing, others, rfl⟩ := exists_of_nextLexeme closed (by simp)
      cases missing
    · have missing := (bind_accept_of_ne _ _ closed).symm.trans missing
      rcases bind_eq_incomplete_iff.mp missing with here | ⟨head, between, read, behind⟩
      · exact lacks short here
      · obtain ⟨taken, dangling, rfl, spelled, -⟩ := reads short read
        -- A statement takes at least one token, so one round less is enough for the others.
        have fewer : between.length < length := by
          have := List.length_pos_iff.mpr spelled.ne_nil
          simp only [List.length_append] at short
          omega
        have shorter := Nat.le_of_lt fewer
        rcases bind_eq_incomplete_iff.mp behind with more | ⟨tail, rest, -, finished⟩
        · rw [beforeEnd_unended spelled.unended]
          refine .append spelled.balanced.level ?_
          exact statementsToClose_lacks bound
            (Nat.le_of_lt_succ (Nat.lt_of_lt_of_le fewer bounded))
            (fun _ _ _ few => reads (Nat.le_trans few shorter)) (lacks.shorter shorter)
            (Nat.le_refl _) more
        · cases finished

section

variable (expressionReads : Reads length reader (SpellsExpression allowance))
  (expressionLacks : Lacks length reader InExpression)

include expressionReads expressionLacks

/-- What stands behind the type of a declaration. -/
theorem declared_lacks {α : Type} (finish : String → Option Expression → Span → α) :
    Lacks length (do
      let (name, _) ← identifier
      let initial ← initialValue? reader
      let closing ← expectMark .semicolon
      return finish name initial closing : Parser α) InExpression := by
  intro tokens short missing
  rcases bind_eq_incomplete_iff.mp missing with here | ⟨⟨name, named⟩, between, read, behind⟩
  · rw [identifier_lacks short here]
    exact inExpression_nil
  · obtain rfl := identifier_eq_ok_iff.mp read
    rw [beforeEnd_cons (by simp)]
    exact inExpression_cons.mpr ⟨rfl, closed_lacks (initialValue?_reads expressionReads)
      (fun initialized => initialized.within) (initialValue?_lacks expressionLacks)
      (Nat.le_of_succ_le short) behind⟩

theorem return_lacks {start : Span} :
    Lacks length (fun tokens =>
      statementOf bound reader nested (⟨.keyword .returnWord, start⟩ :: tokens)) InExpression := by
  intro tokens short missing
  by_cases emptied : nextLexeme tokens = .mark .semicolon
  · obtain ⟨closing, after, rfl⟩ := exists_of_nextLexeme emptied (by simp)
    cases missing
  · have missing := (statementOf_returnValue emptied).symm.trans missing
    exact closed_lacks expressionReads (fun spelled => spelled.within) expressionLacks short missing

theorem statementOf_lacks (bounded : length ≤ bound)
    (nestedReads : ReadsStatement length allowance nested)
    (nestedLacks : Lacks length nested OpensEnough) :
    Lacks length (statementOf bound reader nested) OpensEnough := by
  have evaluated : Lacks length
      (do
        let value ← reader
        let _ ← expectMark .semicolon
        return .evaluate value : Parser Statement) InExpression :=
    closed_lacks expressionReads (fun spelled => spelled.within) expressionLacks
  intro tokens short missing
  by_cases plain : startsOther (nextLexeme tokens) = false
  · rw [statementOf_expression plain] at missing
    exact InExpression.opensEnough (evaluated short missing)
  · rcases tokens with _ | ⟨⟨lexeme, start⟩, others⟩
    · exact absurd rfl plain
    have shorter : others.length ≤ length := Nat.le_of_succ_le short
    cases lexeme with
    | keyword word =>
      rw [beforeEnd_cons (by simp)]
      refine .cons rfl ?_
      cases word with
      | intType =>
        exact InExpression.opensEnough (declared_lacks expressionReads expressionLacks
          (fun name initial closing => Statement.declare .int name initial (start.through closing))
          shorter missing)
      | voidType =>
        exact InExpression.opensEnough (declared_lacks expressionReads expressionLacks
          (fun name initial closing => Statement.declare .void name initial (start.through closing))
          shorter missing)
      | autoType | externWord => cases missing
      | ifWord =>
        rw [statementOf_if] at missing
        exact condition_behind expressionReads expressionLacks
          (fun _ => statement_behind nestedReads nestedLacks fun _ =>
            acceptElse_lacks (by simp) (.cons rfl)
              (fun _ fewer => finish_lacks (nestedLacks.shorter (Nat.le_of_lt fewer)))
              (pure_lacks _)) shorter missing
      | whileWord =>
        rw [statementOf_while] at missing
        exact condition_behind expressionReads expressionLacks
          (fun _ => finish_lacks nestedLacks) shorter missing
      | returnWord =>
        exact InExpression.opensEnough
          (return_lacks expressionReads expressionLacks shorter missing)
      | elseWord => exact absurd rfl plain
    | mark symbol =>
      obtain rfl | rfl : symbol = .openBrace ∨ symbol = .semicolon := by
        cases symbol <;> first | exact .inl rfl | exact .inr rfl | exact absurd rfl plain
      · rw [statementOf_block] at missing
        have inside : OpensEnough (beforeEnd others) := finish_lacks
          (statementsToClose_lacks bound bounded nestedReads nestedLacks) shorter missing
        rw [beforeEnd_cons (by simp), OpensEnough, braceDepth_cons]
        exact Int.add_nonneg Int.one_nonneg inside
      · cases missing
    | integer value => exact absurd rfl plain
    | identifier name => exact absurd rfl plain
    | endOfInput => exact absurd rfl plain

end

/-- By induction on the nesting allowed: a level more adds the reader of one level. -/
theorem statement_lacks (bounded : length ≤ bound) :
    (allowance : Nat) → Lacks length (statement bound allowance) OpensEnough
  | 0 => tooDeep_lacks
  | allowance + 1 =>
    statementOf_lacks (expression_reads bounded allowance) (expression_lacks bounded allowance)
      bounded (statement_reads bounded allowance) (statement_lacks bounded allowance)

end

/-! ## Items -/

/-- The tokens hold no brace, or more braces are opened than closed. -/
def EndsOpen (tokens : List Token) : Prop :=
  (∀ token ∈ tokens, braceStep token.lexeme = 0) ∨ 0 < braceDepth tokens

theorem EndsOpen.append {before after : List Token}
    (plain : ∀ token ∈ before, braceStep token.lexeme = 0) (ends : EndsOpen after) :
    EndsOpen (before ++ after) := by
  refine ends.imp (fun flat token member => ?_) fun opens => ?_
  · exact (List.mem_append.mp member).elim (plain token) (flat token)
  · rwa [braceDepth_append, (balanced_of_forall plain).level, Int.zero_add]

theorem EndsOpen.cons {token : Token} {rest : List Token}
    (plain : braceStep token.lexeme = 0) (ends : EndsOpen rest) : EndsOpen (token :: rest) :=
  @EndsOpen.append [token] rest (by simp [plain]) ends

theorem endsOpen_of_eq_nil {tokens : List Token} (none : tokens = []) : EndsOpen tokens :=
  .inl (by simp [none])

section

variable {length bound : Nat}

/-- What misses a token behind tokens that are no braces. -/
theorem endsOpen_behind {α β : Type} {reader : Parser α} {next : α → Parser β}
    {spells : List Token → α → Prop} (reads : Reads length reader spells)
    (plain : ∀ {taken value}, spells taken value →
      Unended taken ∧ ∀ token ∈ taken, braceStep token.lexeme = 0)
    (first : Lacks length reader EndsOpen) (second : ∀ value, Lacks length (next value) EndsOpen) :
    Lacks length (reader >>= next) EndsOpen :=
  reads.lacks first fun spelled =>
    ⟨(plain spelled).1, (second _).mono fun rest => .append (plain spelled).2 rest⟩

theorem identifier_reads :
    Reads length identifier fun taken named => taken = [⟨.identifier named.1, named.2⟩] := by
  intro tokens named rest _ read
  exact ⟨_, identifier_eq_ok_iff.mp read, rfl⟩

theorem identifier_behind {β : Type} {next : String × Span → Parser β}
    (second : ∀ named, Lacks length (next named) EndsOpen) :
    Lacks length (identifier >>= next) EndsOpen := by
  refine endsOpen_behind identifier_reads ?_ (identifier_lacks.mono endsOpen_of_eq_nil) second
  rintro _ named rfl
  simp [braceStep]

theorem typeName?_eq_none {tokens rest : List Token} (read : typeName? tokens = .ok (none, rest)) :
    tokens = rest := by
  rcases tokens with _ | ⟨⟨lexeme, span⟩, others⟩
  · cases read
    rfl
  · cases lexeme with
    | keyword word => cases word <;> cases read <;> rfl
    | identifier name | integer value | mark symbol | endOfInput =>
      cases read
      rfl

/-- A type may be missing, or what stands behind it. -/
theorem typeName?_behind {β : Type} {next : TypeName → Parser β} {problem : SyntaxProblem}
    (second : ∀ type, Lacks length (next type) EndsOpen) :
    Lacks length (do
      match ← typeName? with
      | none => fail problem
      | some type => next type : Parser β) EndsOpen := by
  intro tokens short missing
  rcases bind_eq_incomplete_iff.mp missing with here | ⟨type, between, read, behind⟩
  · rcases tokens with _ | ⟨⟨lexeme, span⟩, others⟩
    · cases here
    · cases lexeme with
      | keyword word => cases word <;> cases here
      | identifier name | integer value | mark symbol | endOfInput => cases here
  · rcases typeName?_none_or_some read with rfl | ⟨type, span, rfl, rfl⟩
    · obtain rfl := typeName?_eq_none read
      exact endsOpen_of_eq_nil (fail_lacks _ short behind)
    · rw [beforeEnd_cons (by simp)]
      exact .cons rfl (second type (Nat.le_of_succ_le short) behind)

/-- By induction on the rounds: each but the last takes a comma. -/
theorem parameterList_lacks : (bound : Nat) → {length : Nat} →
    Lacks length (parameterList bound) EndsOpen
  | 0, _ => pure_lacks _
  | bound + 1, _ => fun _ short missing =>
    typeName?_behind (fun _ => identifier_behind fun _ => acceptElse_lacks (by simp)
      (.cons rfl) (fun _ _ => finish_lacks (parameterList_lacks bound)) (pure_lacks _))
      short missing

/-- What misses a token behind a mark that has to stand there. -/
theorem expect_behind {β : Type} {symbol : Mark} {expectation : Expectation}
    {next : Span → Parser β} (plain : braceStep (.mark symbol) = 0)
    (second : ∀ span, Lacks length (next span) EndsOpen) :
    Lacks length (expect symbol expectation >>= next) EndsOpen := by
  refine endsOpen_behind (expect_reads symbol expectation) ?_
    ((expect_lacks symbol expectation).mono endsOpen_of_eq_nil) second
  rintro _ span rfl
  simp [plain]

theorem parameters_lacks (above : length < bound) : Lacks length (parameters bound) EndsOpen := by
  refine acceptElse_lacks (by simp) (.cons rfl) (fun _ _ => pure_lacks _) ?_
  intro tokens short missing
  rcases atVoidParameters_cases tokens with ⟨looked, span, closing, others, rfl⟩ | looked
  · cases missing
  · have missing := (bind_of_ok looked _).symm.trans missing
    refine endsOpen_behind (parameterList_reads bound above) (fun spelled => ?_)
      (parameterList_lacks bound) (fun list => expect_behind rfl fun _ => pure_lacks list)
      short missing
    exact ⟨spelled.unended, spelled.braceless⟩

/-- A body that misses a token has opened a brace more than it closes. -/
theorem functionRest_lacks (above : length < bound) (returns : TypeName) (name : String)
    (isExternal : Bool) (start : Span) :
    Lacks length (functionRest bound returns name isExternal start) EndsOpen := by
  refine endsOpen_behind (parameters_reads above) ?_ (parameters_lacks above) fun list => ?_
  · rintro _ list ⟨inner, closing, rfl, spelled⟩
    refine ⟨by simp [spelled.unended], fun token member => ?_⟩
    rcases List.mem_append.mp member with inside | last
    · exact spelled.braceless token inside
    · rw [List.mem_singleton.mp last]
      rfl
  · intro tokens short missing
    by_cases opened : nextLexeme tokens = .mark .openBrace
    · obtain ⟨opening, others, rfl⟩ := exists_of_nextLexeme opened (by simp)
      cases isExternal with
      | true => cases missing
      | false =>
        have shorter : others.length ≤ length := Nat.le_of_succ_le short
        have bounded : length ≤ bound := Nat.le_of_lt above
        have inside : OpensEnough (beforeEnd others) := finish_lacks
          (statementsToClose_lacks bound bounded (statement_reads bounded nestingLimit)
            (statement_lacks bounded nestingLimit)) shorter missing
        rw [beforeEnd_cons (by simp)]
        refine .inr ?_
        rw [braceDepth_cons]
        exact Int.add_pos_of_pos_of_nonneg Int.one_pos inside
    · have missing := (congrFun (if_neg opened) tokens).symm.trans missing
      exact expect_behind rfl (fun _ => pure_lacks _) short missing

/-- What misses a token behind a variable's name. -/
theorem variable_lacks {α : Type} (bounded : length ≤ bound)
    (finish : Option Expression → Span → α) :
    Lacks length (do
      let initial ← initialValue? (expression bound nestingLimit)
      let closing ← expectMark .semicolon
      return finish initial closing : Parser α) EndsOpen :=
  (closed_lacks (initialValue?_reads (expression_reads bounded nestingLimit))
    (fun initialized => initialized.within)
    (initialValue?_lacks (expression_lacks bounded nestingLimit))).mono
      fun within => .inl (InExpression.braceless within)

theorem item_lacks (bounded : length ≤ bound) : Lacks length (item bound) EndsOpen := by
  intro tokens short missing
  obtain ⟨start, looked⟩ : ∃ start, currentSpan tokens = .ok (start, tokens) := ⟨_, rfl⟩
  have missing := (bind_of_ok looked _).symm.trans missing
  have declared : ∀ isExternal, Lacks length (do
      match ← typeName? with
      | none => fail .expectedDeclaration
      | some type =>
        let (name, _) ← identifier
        if ← accept (.mark .openParen) then
          functionRest bound type name isExternal start
        else if isExternal then
          reject (.externalVariable name) start
        else
          let initial ← initialValue? (expression bound nestingLimit)
          let close ← expectMark .semicolon
          return .variable type name initial (start.through close) : Parser Item) EndsOpen := by
    intro isExternal
    refine typeName?_behind fun type => identifier_behind fun named =>
      acceptElse_lacks (by simp) (.cons rfl) (fun fewer less =>
        functionRest_lacks (Nat.lt_of_lt_of_le less bounded) type named.1 isExternal start) ?_
    cases isExternal with
    | true => exact fun _ _ missing => by cases missing
    | false => exact variable_lacks bounded _
  by_cases external : nextLexeme tokens = .keyword .externWord
  · obtain ⟨word, others, rfl⟩ := exists_of_nextLexeme external (by simp)
    have missing := (bind_of_ok (accept_cons (by simp) word others) _).symm.trans missing
    rw [beforeEnd_cons (by simp)]
    exact .cons rfl (declared true (Nat.le_of_succ_le short) missing)
  · have missing := (bind_of_ok (accept_of_ne external) _).symm.trans missing
    exact declared false short missing

/-- More braces are opened than closed, or the last token is no brace. -/
def StopsOpen (tokens : List Token) : Prop :=
  0 < braceDepth tokens ∨ ∃ before last, tokens = before ++ [last] ∧ braceStep last.lexeme = 0

theorem EndsOpen.stopsOpen {tokens : List Token} (ends : EndsOpen tokens) (some : tokens ≠ []) :
    StopsOpen tokens := by
  refine ends.elim (fun flat => .inr ?_) .inl
  refine ⟨tokens.dropLast, tokens.getLast some, (List.dropLast_concat_getLast some).symm, ?_⟩
  exact flat _ (List.getLast_mem some)

theorem StopsOpen.append {before after : List Token} (level : braceDepth before = 0)
    (stops : StopsOpen after) : StopsOpen (before ++ after) := by
  refine stops.imp (fun opens => ?_) ?_
  · rwa [braceDepth_append, level, Int.zero_add]
  · rintro ⟨front, last, rfl, plain⟩
    exact ⟨before ++ front, last, by simp, plain⟩

/-- By induction on the rounds: each but the last takes an item. -/
theorem items_lacks {limit : Nat} : (bound : Nat) → {length : Nat} → length ≤ limit →
    Lacks length (items limit bound) StopsOpen
  | 0, _, _ => pure_lacks _
  | bound + 1, length, limited => by
    intro tokens short missing
    by_cases ended : nextLexeme tokens = .endOfInput
    · cases (congrFun (if_pos ended) tokens).symm.trans missing
    · have missing := (congrFun (if_neg ended) tokens).symm.trans missing
      rcases bind_eq_incomplete_iff.mp missing with here | ⟨head, between, read, behind⟩
      · refine (item_lacks limited short here).stopsOpen ?_
        rcases tokens with _ | ⟨token, others⟩
        · exact absurd rfl ended
        · have real : token.lexeme ≠ .endOfInput := ended
          rw [beforeEnd_cons real]
          exact List.cons_ne_nil _ _
      · obtain ⟨taken, rfl, spelled⟩ := item_reads limited short read
        rw [beforeEnd_unended spelled.unended]
        refine .append spelled.settles.level ?_
        exact finish_lacks (items_lacks bound limited) (Nat.le_trans (by simp) short) behind

end

end Parser

/-- A program that misses a token has an open brace, or its last token is no brace. -/
theorem programOfTokens_of_incomplete {tokens : List Token}
    (missing : programOfTokens tokens = .error .incomplete) :
    Parser.StopsOpen (beforeEnd tokens) := by
  unfold programOfTokens at missing
  split at missing
  · rename_i problem read
    cases missing
    exact Parser.items_lacks tokens.length (Nat.le_refl _) (Nat.le_refl _) read
  · cases missing

end IncrementalC.Syntax
