import IncrementalC.Proofs.Syntax.Completeness
import IncrementalC.Proofs.Syntax.Soundness

/-!
Contract: the reader of programs accepts the grammar, and nothing else.

Owns: the tokens before the end of input, and the equivalence of reader and grammar.

Does not own: the readers of the parts of a program.
-/

namespace IncrementalC.Syntax

open Syntax.Parser

theorem beforeEnd_append {taken rest : List Token} (unended : Unended taken)
    (ended : nextLexeme rest = .endOfInput) : beforeEnd (taken ++ rest) = taken := by
  have stops : beforeEnd rest = [] := by
    cases rest with
    | nil => rfl
    | cons token others => exact List.takeWhile_cons_of_neg (by simpa using ended)
  rw [beforeEnd, List.takeWhile_append_of_pos (by simpa [Unended] using unended)]
  change taken ++ beforeEnd rest = taken
  rw [stops, List.append_nil]

theorem beforeEnd_split (tokens : List Token) :
    ∃ rest, tokens = beforeEnd tokens ++ rest ∧ nextLexeme rest = .endOfInput := by
  induction tokens with
  | nil => exact ⟨[], rfl, rfl⟩
  | cons token others inductiveHypothesis =>
    by_cases ended : token.lexeme = .endOfInput
    · refine ⟨token :: others, ?_, ended⟩
      rw [beforeEnd, List.takeWhile_cons_of_neg (by simpa using ended), List.nil_append]
    · obtain ⟨rest, split, ends⟩ := inductiveHypothesis
      refine ⟨rest, ?_, ends⟩
      rw [beforeEnd, List.takeWhile_cons_of_pos (by simpa using ended), List.cons_append]
      exact congrArg _ split

/-- The reader yields the programs that the tokens before the end of input spell. -/
theorem programOfTokens_eq_ok_iff {tokens : List Token} {items : List Item} :
    programOfTokens tokens = .ok items ↔
      SpellsProgram nestingLimit (beforeEnd tokens) items := by
  constructor
  · intro accepted
    cases read : Parser.items tokens.length tokens.length tokens with
    | error problem =>
      simp only [programOfTokens, read] at accepted
      cases accepted
    | ok finished =>
      simp only [programOfTokens, read] at accepted
      cases accepted
      obtain ⟨ended, taken, split, program⟩ :=
        items_reads tokens.length (Nat.le_refl _) (Nat.le_refl _) (Nat.le_refl _) read
      rw [split, beforeEnd_append program.unended ended]
      exact program
  · intro program
    obtain ⟨rest, split, ended⟩ := beforeEnd_split tokens
    have whole : (beforeEnd tokens ++ rest).length = tokens.length := by rw [← split]
    have read := program.read ended (Nat.le_of_eq whole)
      (Nat.le_trans (by simp) (Nat.le_of_eq whole))
    rw [← split] at read
    simp only [programOfTokens, read]

/-- Whatever the tokens, the reader accepts them exactly if those before the end of input are
a program of the grammar whose nesting stays within the limit, and what it then yields is the
one tree that they spell. -/
theorem accepts_exactly_the_grammar (tokens : List Token) :
    (∀ items, programOfTokens tokens = .ok items ↔
      SpellsProgram nestingLimit (beforeEnd tokens) items) ∧
    (∀ items others, SpellsProgram nestingLimit (beforeEnd tokens) items →
      SpellsProgram nestingLimit (beforeEnd tokens) others → items = others) := by
  refine ⟨fun items => programOfTokens_eq_ok_iff, fun items others first second => ?_⟩
  have read := programOfTokens_eq_ok_iff.mpr first
  rw [programOfTokens_eq_ok_iff.mpr second] at read
  exact (Except.ok.inj read).symm

end IncrementalC.Syntax
