import IncrementalC.Proofs.Syntax.Grammar

/-!
Contract: what a reader takes from the front of a text spells what it yields.

Owns: one lemma for each reader of a phrase, up to whole programs.

Does not own: which texts the readers accept.
-/

namespace IncrementalC.Syntax.Parser

/-- On texts of at most `length` tokens, the tokens that `reader` takes spell what it
yields. -/
def Reads {α : Type} (length : Nat) (reader : Parser α) (spells : List Token → α → Prop) :
    Prop :=
  ∀ ⦃tokens : List Token⦄ ⦃result : α⦄ ⦃rest : List Token⦄, tokens.length ≤ length →
    reader tokens = .ok (result, rest) → ∃ taken, tokens = taken ++ rest ∧ spells taken result

section

variable {α : Type} {length : Nat} {reader : Parser α} {spells others : List Token → α → Prop}

theorem Reads.mono (reads : Reads length reader spells)
    (implied : ∀ {taken result}, spells taken result → others taken result) :
    Reads length reader others := by
  intro tokens result rest short read
  obtain ⟨taken, split, spelled⟩ := reads short read
  exact ⟨taken, split, implied spelled⟩

theorem Reads.shorter {fewer : Nat} (reads : Reads length reader spells)
    (bounded : fewer ≤ length) : Reads fewer reader spells :=
  fun _ _ _ short read => reads (Nat.le_trans short bounded) read

theorem tooDeep_reads : Reads length (tooDeep : Parser α) spells :=
  fun _ _ _ _ read => absurd read tooDeep_ne_ok

/-- What `reader` takes comes first, and what follows is read from the rest. -/
theorem Reads.first {β : Type} {next : α → Parser β} {tokens rest : List Token} {result : β}
    (reads : Reads length reader spells) (short : tokens.length ≤ length)
    (read : (reader >>= next) tokens = .ok (result, rest)) :
    ∃ taken between value, tokens = taken ++ between ∧ spells taken value ∧
      between.length ≤ length ∧ next value between = .ok (result, rest) := by
  obtain ⟨value, between, before, continued⟩ := bind_eq_ok_iff.mp read
  obtain ⟨taken, rfl, spelled⟩ := reads short before
  exact ⟨taken, between, value, rfl, spelled, Nat.le_trans (by simp) short, continued⟩

/-- What stands before a closing mark is read together with the mark. -/
theorem Reads.closed {β : Type} {finish : α → Span → β} {symbol : Mark}
    (reads : Reads length reader spells) :
    Reads length (do
      let value ← reader
      let closing ← expectMark symbol
      return finish value closing : Parser β) fun taken result =>
        ∃ inner value closing, taken = inner ++ [⟨.mark symbol, closing⟩] ∧
          spells inner value ∧ finish value closing = result := by
  intro tokens result rest short read
  obtain ⟨value, closing, before, finished⟩ := closed_eq_ok_iff.mp read
  obtain ⟨inner, rfl, spelled⟩ := reads short before
  exact ⟨inner ++ [⟨.mark symbol, closing⟩], by simp, inner, value, closing, rfl, spelled,
    finished⟩

end

/-! ## Expressions -/

section

variable {length bound allowance : Nat}

theorem leftAssociative_reads {level : OperatorLevel} {levels : List OperatorLevel}
    {reader : Parser Expression}
    (tighter_reads : Reads length reader (SpellsOperators allowance levels)) :
    (bound : Nat) → {left : Expression} → {before : List Token} →
      SpellsOperators allowance (level :: levels) before left →
      Reads length (leftAssociative level reader bound left) fun taken result =>
        SpellsOperators allowance (level :: levels) (before ++ taken) result
  | 0, left, before, first => by
    intro tokens result rest _ read
    cases read
    exact ⟨[], rfl, by simpa using first⟩
  | bound + 1, left, before, first => by
    intro tokens result rest short read
    cases found : operatorOf? level (nextLexeme tokens) with
    | none =>
      rw [leftAssociative_of_none found] at read
      cases read
      exact ⟨[], rfl, by simpa using first⟩
    | some operator =>
      obtain ⟨symbol, next, denotes⟩ := mark_of_operatorOf? found
      obtain ⟨sign, others, rfl⟩ := exists_of_nextLexeme next (by simp)
      rw [leftAssociative_operator denotes] at read
      obtain ⟨after, between, right, rfl, spelled, shorter, continued⟩ :=
        tighter_reads.first (Nat.le_of_succ_le short) read
      obtain ⟨taken, rfl, result_spelled⟩ :=
        leftAssociative_reads tighter_reads bound (first.apply denotes spelled) shorter continued
      exact ⟨⟨.mark symbol, sign⟩ :: after ++ taken, by simp, by simpa using result_spelled⟩

theorem binaryLevels_reads {reader : Parser Expression}
    (operand_reads : Reads length reader (SpellsOperand allowance)) :
    (levels : List OperatorLevel) →
      Reads length (binaryLevels bound reader levels) (SpellsOperators allowance levels)
  | [] => operand_reads.mono .operand
  | level :: tighter => by
    intro tokens result rest short read
    have tighter_reads := binaryLevels_reads operand_reads tighter
    obtain ⟨before, between, left, rfl, spelled, shorter, continued⟩ :=
      tighter_reads.first short read
    obtain ⟨taken, rfl, result_spelled⟩ :=
      leftAssociative_reads tighter_reads bound spelled.tighter shorter continued
    exact ⟨before ++ taken, by simp, result_spelled⟩

theorem commaSeparated_reads {reader : Parser Expression} : (bound : Nat) → {length : Nat} →
    Reads length reader (SpellsExpression allowance) → length < bound →
    Reads length (commaSeparated reader bound) (SpellsArguments allowance)
  | 0, _, _, above => absurd above (Nat.not_lt_zero _)
  | bound + 1, length, expression_reads, above => by
    intro tokens result rest short read
    obtain ⟨taken, between, value, rfl, spelled, -, continued⟩ := expression_reads.first short read
    obtain ⟨separated, after, accepted, finished⟩ := bind_eq_ok_iff.mp continued
    rcases (accept_eq_ok_iff (by simp)).mp accepted with ⟨rfl, comma, rfl⟩ | ⟨rfl, -, rfl⟩
    · obtain ⟨values, final, more, ended⟩ := bind_eq_ok_iff.mp finished
      cases ended
      -- The comma was taken, so one round less is enough for what follows.
      have fewer : after.length < length := by
        simp only [List.length_append, List.length_cons] at short
        omega
      obtain ⟨others, rfl, given⟩ :=
        commaSeparated_reads bound (expression_reads.shorter (Nat.le_of_lt fewer))
          (Nat.lt_of_lt_of_le fewer (Nat.le_of_lt_succ above)) (Nat.le_refl _) more
      exact ⟨taken ++ ⟨.mark .comma, comma⟩ :: others, by simp, .more spelled given⟩
    · cases finished
      exact ⟨taken, rfl, .last spelled⟩

theorem primary_reads {reader : Parser Expression} (bounded : length ≤ bound)
    (expression_reads : Reads length reader (SpellsExpression allowance)) :
    Reads length (primary bound reader) (SpellsPrimary allowance) := by
  intro tokens result rest short read
  by_cases starts : startsPrimary (nextLexeme tokens) = true
  · rcases tokens with _ | ⟨⟨lexeme, start⟩, others⟩
    · cases starts
    cases lexeme with
    | integer value =>
      cases read
      exact ⟨[_], rfl, .integer⟩
    | identifier name =>
      by_cases called : nextLexeme others = .mark .openParen
      · obtain ⟨opening, inside, rfl⟩ := exists_of_nextLexeme called (by simp)
        by_cases emptied : nextLexeme inside = .mark .closeParen
        · obtain ⟨closing, after, rfl⟩ := exists_of_nextLexeme emptied (by simp)
          cases read
          exact ⟨[_, _, _], rfl, .call⟩
        · rw [primary_call emptied] at read
          have fewer : inside.length < length := Nat.lt_of_lt_of_le (by simp only [List.length_cons]; omega) short
          obtain ⟨_, rfl, tokens, values, closing, rfl, given, rfl⟩ :=
            Reads.closed (commaSeparated_reads bound
              (expression_reads.shorter (Nat.le_of_lt fewer))
              (Nat.lt_of_lt_of_le fewer bounded)) (Nat.le_refl _) read
          exact ⟨⟨.identifier name, start⟩ :: ⟨.mark .openParen, opening⟩ ::
            (tokens ++ [⟨.mark .closeParen, closing⟩]), rfl, .callWith given⟩
      · rw [primary_name called] at read
        cases read
        exact ⟨[_], rfl, .name⟩
    | mark symbol =>
      obtain rfl : symbol = .openParen := by
        cases symbol <;> first | rfl | cases starts
      rw [primary_group] at read
      obtain ⟨_, rfl, tokens, inner, closing, rfl, spelled, rfl⟩ :=
        Reads.closed (expression_reads.shorter (Nat.le_of_succ_le short)) (Nat.le_refl _) read
      exact ⟨⟨.mark .openParen, start⟩ :: (tokens ++ [⟨.mark .closeParen, closing⟩]), rfl,
        .group spelled⟩
    | keyword word => cases starts
    | endOfInput => cases starts
  · exact absurd read (primary_ne_ok (eq_false_of_ne_true starts))

theorem operand_reads {nested base : Parser Expression}
    (nested_reads : Reads length nested fun taken inner =>
      ∃ below, allowance = below + 1 ∧ SpellsOperand below taken inner)
    (base_reads : Reads length base (SpellsPrimary allowance)) :
    Reads length (operand nested base) (SpellsOperand allowance) := by
  intro tokens result rest short read
  cases found : unaryOperatorOf? (nextLexeme tokens) with
  | none =>
    rw [operand_of_none found] at read
    exact base_reads.mono .plain short read
  | some operator =>
    rcases unaryOperatorOf?_eq_some found with ⟨next, rfl⟩ | ⟨next, rfl⟩
    · obtain ⟨sign, others, rfl⟩ := exists_of_nextLexeme next (by simp)
      rw [operand_operator rfl (by simp)] at read
      obtain ⟨taken, between, inner, rfl, ⟨below, rfl, spelled⟩, -, finished⟩ :=
        nested_reads.first (Nat.le_of_succ_le short) read
      cases finished
      exact ⟨⟨.mark .minus, sign⟩ :: taken, rfl, .negate spelled⟩
    · obtain ⟨sign, others, rfl⟩ := exists_of_nextLexeme next (by simp)
      rw [operand_operator rfl (by simp)] at read
      obtain ⟨taken, between, inner, rfl, ⟨below, rfl, spelled⟩, -, finished⟩ :=
        nested_reads.first (Nat.le_of_succ_le short) read
      cases finished
      exact ⟨⟨.mark .bang, sign⟩ :: taken, rfl, .not spelled⟩

theorem assignment_reads {reader nested : Parser Expression}
    (operand_reads : Reads length reader (SpellsOperand allowance))
    (nested_reads : Reads length nested (SpellsExpression allowance)) :
    Reads length (assignment bound reader nested) (SpellsExpression (allowance + 1)) := by
  intro tokens result rest short read
  obtain ⟨taken, between, target, rfl, spelled, shorter, continued⟩ :=
    (binaryLevels_reads operand_reads operatorLevels).first short read
  obtain ⟨assigns, after, accepted, finished⟩ := bind_eq_ok_iff.mp continued
  rcases (accept_eq_ok_iff (by simp)).mp accepted with ⟨rfl, sign, rfl⟩ | ⟨rfl, -, rfl⟩
  · obtain ⟨others, final, value, rfl, assigned, -, ended⟩ :=
      nested_reads.first (Nat.le_of_succ_le shorter) finished
    cases ended
    exact ⟨taken ++ ⟨.mark .assign, sign⟩ :: others, by simp, .assign spelled assigned⟩
  · cases finished
    exact ⟨taken, rfl, .value spelled⟩

/-- By induction on the nesting allowed: a level more adds the readers of one level. -/
theorem expression_unary_reads (bounded : length ≤ bound) (allowance : Nat) :
    Reads length (expression bound allowance) (SpellsExpression allowance) ∧
      Reads length (unary bound allowance) (SpellsOperand allowance) := by
  induction allowance with
  | zero =>
    refine ⟨tooDeep_reads, ?_⟩
    exact operand_reads tooDeep_reads (primary_reads bounded tooDeep_reads)
  | succ allowance inductiveHypothesis =>
    obtain ⟨nested_reads, unary_reads⟩ := inductiveHypothesis
    have expression_reads : Reads length (expression bound (allowance + 1)) _ :=
      assignment_reads unary_reads nested_reads
    refine ⟨expression_reads, ?_⟩
    exact operand_reads (unary_reads.mono fun spelled => ⟨allowance, rfl, spelled⟩)
      (primary_reads bounded expression_reads)

theorem expression_reads (bounded : length ≤ bound) (allowance : Nat) :
    Reads length (expression bound allowance) (SpellsExpression allowance) :=
  (expression_unary_reads bounded allowance).1

theorem initialValue?_reads {reader : Parser Expression}
    (expression_reads : Reads length reader (SpellsExpression allowance)) :
    Reads length (initialValue? reader) (SpellsInitial allowance) := by
  intro tokens result rest short read
  obtain ⟨stated, between, accepted, continued⟩ := bind_eq_ok_iff.mp read
  rcases (accept_eq_ok_iff (by simp)).mp accepted with ⟨rfl, sign, rfl⟩ | ⟨rfl, -, rfl⟩
  · obtain ⟨taken, final, value, rfl, spelled, -, ended⟩ :=
      expression_reads.first (Nat.le_of_succ_le short) continued
    cases ended
    exact ⟨⟨.mark .assign, sign⟩ :: taken, rfl, .some spelled⟩
  · cases continued
    exact ⟨[], rfl, .none⟩

theorem condition_reads {reader : Parser Expression}
    (expression_reads : Reads length reader (SpellsExpression allowance)) :
    Reads length (condition reader) (SpellsCondition allowance) := by
  intro tokens result rest short read
  obtain ⟨opening, inside, opened, continued⟩ := bind_eq_ok_iff.mp read
  obtain rfl := expectMark_eq_ok_iff.mp opened
  obtain ⟨_, rfl, taken, value, closing, rfl, spelled, rfl⟩ :=
    Reads.closed (expression_reads.shorter (Nat.le_of_succ_le short)) (Nat.le_refl _) continued
  exact ⟨⟨.mark .openParen, opening⟩ :: (taken ++ [⟨.mark .closeParen, closing⟩]), rfl,
    .parentheses spelled⟩

end

/-! ## Statements -/

/-- A statement spelled by the tokens up to `rest`. One that dangles is not followed by
`else`. -/
def TakesStatement (allowance : Nat) (tokens : List Token) (result : Statement)
    (rest : List Token) : Prop :=
  ∃ taken dangling, tokens = taken ++ rest ∧ SpellsStatement allowance dangling taken result ∧
    (dangling = true → nextLexeme rest ≠ .keyword .elseWord)

/-- On texts of at most `length` tokens, `reader` takes a statement. -/
def ReadsStatement (length allowance : Nat) (reader : Parser Statement) : Prop :=
  ∀ ⦃tokens : List Token⦄ ⦃result : Statement⦄ ⦃rest : List Token⦄, tokens.length ≤ length →
    reader tokens = .ok (result, rest) → TakesStatement allowance tokens result rest

section

variable {length bound allowance : Nat} {reader : Parser Expression} {nested : Parser Statement}

/-- What `reader` takes comes first, and what follows is read from the rest. -/
theorem ReadsStatement.first {β : Type} {next : Statement → Parser β} {tokens rest : List Token}
    {result : β} (reads : ReadsStatement length allowance nested)
    (short : tokens.length ≤ length)
    (read : (nested >>= next) tokens = .ok (result, rest)) :
    ∃ taken between dangling value, tokens = taken ++ between ∧
      SpellsStatement allowance dangling taken value ∧
      (dangling = true → nextLexeme between ≠ .keyword .elseWord) ∧
      between.length ≤ length ∧ next value between = .ok (result, rest) := by
  obtain ⟨value, between, before, continued⟩ := bind_eq_ok_iff.mp read
  obtain ⟨taken, dangling, rfl, spelled, follows⟩ := reads short before
  exact ⟨taken, between, dangling, value, rfl, spelled, follows, Nat.le_trans (by simp) short,
    continued⟩

theorem statementsToClose_reads (nested_reads : ReadsStatement length allowance nested) :
    (bound : Nat) → Reads length (statementsToClose nested bound) fun taken result =>
      ∃ inner closing, taken = inner ++ [⟨.mark .closeBrace, closing⟩] ∧
        SpellsStatements allowance inner result
  | 0 => fun _ _ _ _ read => nomatch read
  | bound + 1 => by
    intro tokens result rest short read
    obtain ⟨closed, between, accepted, continued⟩ := bind_eq_ok_iff.mp read
    rcases (accept_eq_ok_iff (by simp)).mp accepted with ⟨rfl, closing, rfl⟩ | ⟨rfl, -, rfl⟩
    · cases continued
      exact ⟨[_], rfl, [], closing, rfl, .nil⟩
    · obtain ⟨taken, after, dangling, head, rfl, spelled, -, shorter, finished⟩ :=
        nested_reads.first short continued
      obtain ⟨_, final, tail, rfl, ⟨inner, closing, rfl, others⟩, -, ended⟩ :=
        (statementsToClose_reads nested_reads bound).first shorter finished
      cases ended
      exact ⟨taken ++ (inner ++ [⟨.mark .closeBrace, closing⟩]), by simp, taken ++ inner, closing,
        by simp, .cons spelled others⟩

section

variable {start : Span} {tokens rest : List Token} {result : Statement}
variable (expression_reads : Reads length reader (SpellsExpression allowance))
variable (short : tokens.length ≤ length)

include expression_reads short

theorem declaration_takes {type : TypeName} (stated : type ≠ .auto)
    (read : statementOf bound reader nested (⟨.keyword type.keyword, start⟩ :: tokens) =
      .ok (result, rest)) :
    TakesStatement (allowance + 1) (⟨.keyword type.keyword, start⟩ :: tokens) result rest := by
  rw [statementOf_declaration stated] at read
  obtain ⟨⟨name, named⟩, between, identified, continued⟩ := bind_eq_ok_iff.mp read
  obtain rfl := identifier_eq_ok_iff.mp identified
  obtain ⟨_, rfl, taken, initial, closing, rfl, initialized, rfl⟩ :=
    Reads.closed (initialValue?_reads expression_reads) (Nat.le_of_succ_le short) continued
  exact ⟨⟨.keyword type.keyword, start⟩ :: ⟨.identifier name, named⟩ ::
    (taken ++ [⟨.mark .semicolon, closing⟩]), false, rfl, .declare stated initialized,
    fun absent => by cases absent⟩

theorem return_takes
    (read : statementOf bound reader nested (⟨.keyword .returnWord, start⟩ :: tokens) =
      .ok (result, rest)) :
    TakesStatement (allowance + 1) (⟨.keyword .returnWord, start⟩ :: tokens) result rest := by
  by_cases emptied : nextLexeme tokens = .mark .semicolon
  · obtain ⟨closing, after, rfl⟩ := exists_of_nextLexeme emptied (by simp)
    cases read
    exact ⟨[_, _], false, rfl, .leave, fun absent => by cases absent⟩
  · rw [statementOf_returnValue emptied] at read
    obtain ⟨_, rfl, taken, value, closing, rfl, spelled, rfl⟩ :=
      Reads.closed expression_reads short read
    exact ⟨⟨.keyword .returnWord, start⟩ :: (taken ++ [⟨.mark .semicolon, closing⟩]), false, rfl,
      .leaveWith spelled, fun absent => by cases absent⟩

variable (nested_reads : ReadsStatement length allowance nested)

include nested_reads

theorem if_takes
    (read : statementOf bound reader nested (⟨.keyword .ifWord, start⟩ :: tokens) =
      .ok (result, rest)) :
    TakesStatement (allowance + 1) (⟨.keyword .ifWord, start⟩ :: tokens) result rest := by
  rw [statementOf_if] at read
  obtain ⟨tested, between, test, rfl, condition, shorter, continued⟩ :=
    (condition_reads expression_reads).first short read
  obtain ⟨taken, after, dangling, whenTrue, rfl, branch, follows, shorter, finished⟩ :=
    nested_reads.first shorter continued
  obtain ⟨more, others, accepted, ended⟩ := bind_eq_ok_iff.mp finished
  rcases (accept_eq_ok_iff (by simp)).mp accepted with ⟨rfl, between, rfl⟩ | ⟨rfl, ends, rfl⟩
  · -- An `else` follows, so the first branch does not dangle.
    obtain rfl : dangling = false := eq_false_of_ne_true fun dangles => follows dangles rfl
    obtain ⟨alternative, final, dangling, whenFalse, rfl, other, follows, -, done⟩ :=
      nested_reads.first (Nat.le_of_succ_le shorter) ended
    cases done
    exact ⟨⟨.keyword .ifWord, start⟩ ::
      (tested ++ (taken ++ ⟨.keyword .elseWord, between⟩ :: alternative)), dangling, by simp,
      .chooseElse condition branch other, follows⟩
  · cases ended
    exact ⟨⟨.keyword .ifWord, start⟩ :: (tested ++ taken), true, by simp,
      .choose condition branch, fun _ => ends⟩

theorem while_takes
    (read : statementOf bound reader nested (⟨.keyword .whileWord, start⟩ :: tokens) =
      .ok (result, rest)) :
    TakesStatement (allowance + 1) (⟨.keyword .whileWord, start⟩ :: tokens) result rest := by
  rw [statementOf_while] at read
  obtain ⟨tested, between, test, rfl, condition, shorter, continued⟩ :=
    (condition_reads expression_reads).first short read
  obtain ⟨taken, after, dangling, body, rfl, repeated, follows, -, finished⟩ :=
    nested_reads.first shorter continued
  cases finished
  exact ⟨⟨.keyword .whileWord, start⟩ :: (tested ++ taken), dangling, by simp,
    .loop condition repeated, follows⟩

end

theorem statementOf_reads (expression_reads : Reads length reader (SpellsExpression allowance))
    (nested_reads : ReadsStatement length allowance nested) :
    ReadsStatement length (allowance + 1) (statementOf bound reader nested) := by
  intro tokens result rest short read
  by_cases plain : startsOther (nextLexeme tokens) = false
  · rw [statementOf_expression plain] at read
    obtain ⟨_, rfl, taken, value, closing, rfl, spelled, rfl⟩ :=
      Reads.closed expression_reads short read
    exact ⟨_, false, rfl, .evaluate spelled, fun absent => by cases absent⟩
  · rcases tokens with _ | ⟨⟨lexeme, start⟩, others⟩
    · exact absurd rfl plain
    have shorter : others.length ≤ length := Nat.le_of_succ_le short
    cases lexeme with
    | keyword word =>
      cases word with
      | intType =>
        exact declaration_takes expression_reads shorter (by decide : TypeName.int ≠ .auto) read
      | voidType =>
        exact declaration_takes expression_reads shorter (by decide : TypeName.void ≠ .auto) read
      | autoType => cases read
      | externWord => cases read
      | ifWord => exact if_takes expression_reads shorter nested_reads read
      | whileWord => exact while_takes expression_reads shorter nested_reads read
      | returnWord => exact return_takes expression_reads shorter read
      | elseWord => exact absurd rfl plain
    | mark symbol =>
      obtain rfl | rfl : symbol = .openBrace ∨ symbol = .semicolon := by
        cases symbol <;> first | exact .inl rfl | exact .inr rfl | exact absurd rfl plain
      · rw [statementOf_block] at read
        obtain ⟨_, after, body, rfl, ⟨inner, closing, rfl, statements⟩, -, finished⟩ :=
          (statementsToClose_reads nested_reads bound).first shorter read
        cases finished
        exact ⟨⟨.mark .openBrace, start⟩ :: (inner ++ [⟨.mark .closeBrace, closing⟩]), false, rfl,
          .block statements, fun absent => by cases absent⟩
      · cases read
        exact ⟨[_], false, rfl, .empty, fun absent => by cases absent⟩
    | integer value => exact absurd rfl plain
    | identifier name => exact absurd rfl plain
    | endOfInput => exact absurd rfl plain

/-- By induction on the nesting allowed: a level more adds the reader of one level. -/
theorem statement_reads (bounded : length ≤ bound) :
    (allowance : Nat) → ReadsStatement length allowance (statement bound allowance)
  | 0 => fun _ _ _ _ read => absurd read tooDeep_ne_ok
  | allowance + 1 =>
    statementOf_reads (expression_reads bounded allowance) (statement_reads bounded allowance)

end

/-! ## Items -/

section

variable {length bound : Nat}

theorem parameterList_reads : (bound : Nat) → {length : Nat} → length < bound →
    Reads length (parameterList bound) SpellsParameterList
  | 0, _, above => absurd above (Nat.not_lt_zero _)
  | bound + 1, length, above => by
    intro tokens result rest short read
    obtain ⟨_, _, ⟨⟩, read⟩ := bind_eq_ok_iff.mp read
    obtain ⟨type, between, typed, continued⟩ := bind_eq_ok_iff.mp read
    rcases typeName?_none_or_some typed with rfl | ⟨type, start, rfl, rfl⟩
    · exact absurd continued fail_ne_ok
    obtain ⟨⟨name, stop⟩, after, identified, finished⟩ := bind_eq_ok_iff.mp continued
    obtain rfl := identifier_eq_ok_iff.mp identified
    obtain ⟨separated, behind, accepted, ended⟩ := bind_eq_ok_iff.mp finished
    rcases (accept_eq_ok_iff (by simp)).mp accepted with ⟨rfl, comma, rfl⟩ | ⟨rfl, -, rfl⟩
    · obtain ⟨list, final, more, done⟩ := bind_eq_ok_iff.mp ended
      cases done
      have fewer : behind.length < bound := by
        simp only [List.length_cons] at short
        omega
      obtain ⟨taken, rfl, spelled⟩ := parameterList_reads bound fewer (Nat.le_refl _) more
      exact ⟨⟨.keyword type.keyword, start⟩ :: ⟨.identifier name, stop⟩ ::
        ⟨.mark .comma, comma⟩ :: taken, rfl, .more spelled⟩
    · cases ended
      exact ⟨[_, _], rfl, .last⟩

/-- Parameters are read together with the parenthesis behind them. -/
theorem parameters_reads (above : length < bound) :
    Reads length (parameters bound) fun taken result =>
      ∃ inner closing, taken = inner ++ [⟨.mark .closeParen, closing⟩] ∧
        SpellsParameters inner result := by
  intro tokens result rest short read
  obtain ⟨emptied, between, accepted, continued⟩ := bind_eq_ok_iff.mp read
  rcases (accept_eq_ok_iff (by simp)).mp accepted with ⟨rfl, closing, rfl⟩ | ⟨rfl, -, rfl⟩
  · cases continued
    exact ⟨[_], rfl, [], closing, rfl, .none⟩
  rcases atVoidParameters_cases tokens with ⟨looked, span, closing, others, rfl⟩ | looked
  · rw [if_neg (by simp), bind_of_ok looked] at continued
    cases continued
    exact ⟨[_, _], rfl, [_], closing, rfl, .void⟩
  · rw [if_neg (by simp), bind_of_ok looked] at continued
    obtain ⟨_, rfl, inner, list, closing, rfl, spelled, rfl⟩ :=
      Reads.closed (parameterList_reads bound above) short continued
    exact ⟨inner ++ [⟨.mark .closeParen, closing⟩], rfl, inner, closing, rfl, .list spelled⟩

/-- What follows the parenthesis that opens the parameters of a function. -/
def SpellsFunctionRest (returns : TypeName) (name : String) (isExternal : Bool) (start : Span)
    (taken : List Token) (result : Item) : Prop :=
  ∃ inner list closing, SpellsParameters inner list ∧
    ((∃ stop, taken = inner ++ [⟨.mark .closeParen, closing⟩, ⟨.mark .semicolon, stop⟩] ∧
        result = .function returns name list none isExternal (start.through stop)) ∨
      (isExternal = false ∧ ∃ opening within body ending,
        taken = inner ++ ⟨.mark .closeParen, closing⟩ :: ⟨.mark .openBrace, opening⟩ ::
          (within ++ [⟨.mark .closeBrace, ending⟩]) ∧
        SpellsStatements nestingLimit within body ∧
        result = .function returns name list (some body) false (start.through opening)))

theorem functionRest_reads (above : length < bound) {returns : TypeName} {name : String}
    {isExternal : Bool} {start : Span} :
    Reads length (functionRest bound returns name isExternal start)
      (SpellsFunctionRest returns name isExternal start) := by
  intro tokens result rest short read
  obtain ⟨_, between, list, rfl, ⟨inner, closing, rfl, spelled⟩, shorter, continued⟩ :=
    (parameters_reads above).first short read
  rw [bind_current] at continued
  by_cases opened : nextLexeme between = .mark .openBrace
  · obtain ⟨opening, others, rfl⟩ := exists_of_nextLexeme opened (by simp)
    cases isExternal with
    | true => cases continued
    | false =>
      obtain ⟨_, after, body, rfl, ⟨within, ending, rfl, statements⟩, -, finished⟩ :=
        (statementsToClose_reads (statement_reads (Nat.le_of_lt above) nestingLimit) bound).first
          (Nat.le_of_succ_le shorter) continued
      cases finished
      exact ⟨inner ++ ⟨.mark .closeParen, closing⟩ :: ⟨.mark .openBrace, opening⟩ ::
          (within ++ [⟨.mark .closeBrace, ending⟩]), by simp, inner, list, closing, spelled,
        .inr ⟨rfl, opening, within, body, ending, rfl, statements, rfl⟩⟩
  · obtain ⟨stop, after, ended, finished⟩ :=
      bind_eq_ok_iff.mp ((congrFun (if_neg opened) between).symm.trans continued)
    obtain rfl := expect_eq_ok_iff.mp ended
    cases finished
    exact ⟨inner ++ [⟨.mark .closeParen, closing⟩, ⟨.mark .semicolon, stop⟩], by simp, inner, list,
      closing, spelled, .inl ⟨stop, rfl, rfl⟩⟩

theorem item_reads (bounded : length ≤ bound) :
    Reads length (item bound) (SpellsItem nestingLimit) := by
  intro tokens result rest short read
  obtain ⟨_, _, ⟨⟩, read⟩ := bind_eq_ok_iff.mp read
  obtain ⟨isExternal, between, accepted, continued⟩ := bind_eq_ok_iff.mp read
  obtain ⟨type, after, typed, finished⟩ := bind_eq_ok_iff.mp continued
  rcases typeName?_none_or_some typed with rfl | ⟨type, start, rfl, rfl⟩
  · exact absurd finished fail_ne_ok
  obtain ⟨⟨name, named⟩, behind, identified, ended⟩ := bind_eq_ok_iff.mp finished
  obtain rfl := identifier_eq_ok_iff.mp identified
  obtain ⟨opened, inside, called, done⟩ := bind_eq_ok_iff.mp ended
  cases opened with
  | true =>
    obtain ⟨opening, rfl⟩ := (accept_eq_true_iff (by simp)).mp called
    have fewer : inside.length < bound := by
      rcases (accept_eq_ok_iff (by simp)).mp accepted with ⟨-, span, rfl⟩ | ⟨-, -, rfl⟩
      all_goals simp only [List.length_cons] at short; omega
    obtain ⟨taken, rfl, inner, list, closing, spelled, function⟩ :=
      functionRest_reads fewer (Nat.le_refl _) done
    have signature : SpellsSignature type name list start
        (⟨.keyword type.keyword, start⟩ :: ⟨.identifier name, named⟩ ::
          ⟨.mark .openParen, opening⟩ :: (inner ++ [⟨.mark .closeParen, closing⟩])) :=
      .mk spelled
    cases isExternal with
    | true =>
      obtain ⟨span, rfl⟩ := (accept_eq_true_iff (by simp)).mp accepted
      obtain ⟨stop, rfl, rfl⟩ | ⟨internal, -⟩ := function
      · exact ⟨_, by simp, .external signature⟩
      · cases internal
    | false =>
      obtain ⟨-, rfl⟩ := (accept_eq_false_iff (by simp)).mp accepted
      obtain ⟨stop, rfl, rfl⟩ | ⟨-, brace, within, body, ending, rfl, statements, rfl⟩ := function
      · exact ⟨_, by simp, .prototype signature⟩
      · exact ⟨_ ++ ⟨.mark .openBrace, brace⟩ :: (within ++ [⟨.mark .closeBrace, ending⟩]),
          by simp, .definition signature statements⟩
  | false =>
    obtain ⟨-, rfl⟩ := (accept_eq_false_iff (by simp)).mp called
    cases isExternal with
    | true => cases done
    | false =>
      obtain ⟨-, rfl⟩ := (accept_eq_false_iff (by simp)).mp accepted
      have shorter : behind.length ≤ length := by
        simp only [List.length_cons] at short
        omega
      obtain ⟨_, rfl, taken, initial, closing, rfl, initialized, rfl⟩ :=
        Reads.closed (initialValue?_reads (expression_reads bounded nestingLimit)) shorter done
      exact ⟨⟨.keyword type.keyword, start⟩ :: ⟨.identifier name, named⟩ ::
        (taken ++ [⟨.mark .semicolon, closing⟩]), rfl, .variable initialized⟩

/-- Items are read up to the end of input. -/
theorem items_reads {limit : Nat} : (bound : Nat) → {length : Nat} → length ≤ limit →
    length ≤ bound → ∀ ⦃tokens result rest⦄, tokens.length ≤ length →
      items limit bound tokens = .ok (result, rest) →
        nextLexeme rest = .endOfInput ∧
          ∃ taken, tokens = taken ++ rest ∧ SpellsProgram nestingLimit taken result
  | 0, length, limited, bounded, tokens, result, rest, short, read => by
    obtain rfl := List.length_eq_zero_iff.mp (Nat.le_zero.mp (Nat.le_trans short bounded))
    cases read
    exact ⟨rfl, [], rfl, .nil⟩
  | bound + 1, length, limited, bounded, tokens, result, rest, short, read => by
    rw [items, bind_currentLexeme] at read
    by_cases ended : nextLexeme tokens = .endOfInput
    · have read := (congrFun (if_pos ended) tokens).symm.trans read
      cases read
      exact ⟨ended, [], rfl, .nil⟩
    · obtain ⟨taken, between, head, rfl, spelled, -, continued⟩ :=
        (item_reads limited).first short ((congrFun (if_neg ended) tokens).symm.trans read)
      obtain ⟨tail, final, more, finished⟩ := bind_eq_ok_iff.mp continued
      cases finished
      -- An item takes at least one token, so one round less is enough for the others.
      have fewer : between.length < length := by
        have := List.length_pos_iff.mpr spelled.ne_nil
        simp only [List.length_append] at short
        omega
      obtain ⟨ends, others, rfl, program⟩ :=
        items_reads bound (Nat.le_trans (Nat.le_of_lt fewer) limited)
          (Nat.le_of_lt_succ (Nat.lt_of_lt_of_le fewer bounded)) (Nat.le_refl _) more
      exact ⟨ends, taken ++ others, by simp, .cons spelled program⟩

end

end IncrementalC.Syntax.Parser
