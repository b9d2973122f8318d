import IncrementalC.Proofs.Input.Enclosure
import IncrementalC.Proofs.Source.LineWindow
import IncrementalC.Proofs.Token.Segmentation

/-!
Contract: the window of placed input leads back to the input.

The tokens of the text around placed input that lie among the bytes of the input are those of the
input itself, one line further down. The window takes that line away again. Whatever stands around
the input is mapped to one of its lines.

Owns:
- the tokens of a text that lie among some of its bytes;
- which tokens of the text around placed input are those of the input, and where the window of
  the input maps them.

Does not own: reports about the text.
-/

namespace IncrementalC

/-! ## Tokens among bytes -/

namespace Token

/-- Whether a token lies among the bytes from one offset to another. -/
def liesBetween (start stop : Nat) (token : Token) : Bool :=
  decide (start ≤ token.span.start.offset ∧ token.span.stop.offset ≤ stop)

end Token

section

variable {before rest : List Char} {tokens : List Token}

/-- Tokens behind some characters start behind them, and none stops before it starts. -/
theorem Pieces.offsets (pieces : Pieces before rest tokens) {token : Token}
    (member : token ∈ tokens) :
    (Position.behind before).offset ≤ token.span.start.offset ∧
      token.span.start.offset ≤ token.span.stop.offset ∧
      token.span.stop.offset ≤ (Position.behind (before ++ rest)).offset ∧
      (token.lexeme ≠ .endOfInput → token.span.start.offset < token.span.stop.offset) := by
  obtain ⟨front, spelling, after, split, further, placed, spelled⟩ := pieces.of_mem member
  rw [placed, split]
  refine ⟨Position.offset_behind_le further, Position.offset_behind_le (List.prefix_append _ _),
    Position.offset_behind_le (List.prefix_append _ _), fun solid => ?_⟩
  exact Position.offset_behind_lt (spelled solid).ne_nil

end

namespace Input

/-! ## Placed input among other lines -/

theorem placed_leads_trimEnd (kind : WrapKind) (input : List Char) :
    placed kind input <+: Text.trimEnd input := by
  cases kind with
  | statements => exact List.prefix_rfl
  | value =>
    rcases dropSemicolon_cases (Text.trimEnd input) with same | closed
    · exact same ▸ List.prefix_rfl
    · exact ⟨[';'], closed.symm⟩

/-- How many bytes placed input has. -/
def bytesOfPlaced (kind : WrapKind) (input : List Char) : Nat :=
  (String.ofList (placed kind input)).utf8ByteSize

theorem offset_behind_wrapperOpening (entry : String) (kind : WrapKind) (more : List Char) :
    (Position.behind ((wrapperOpening entry kind).toList ++ more)).offset =
      bytesBefore entry kind + (String.ofList more).utf8ByteSize := by
  rw [Position.offset_behind_append, Position.behind, String.ofList_toList, bytesBefore]

/-- The tokens of the line in front of placed input start among its bytes. -/
theorem exists_opening {entry : String} (named : IsWord entry.toList (.identifier entry))
    (kind : WrapKind) :
    ∃ opening : List Token,
      (∀ rest, tokensFrom ⟨(wrapperOpening entry kind).toList ++ rest, .first⟩ =
        (tokensFrom ⟨rest, Position.first.below 1 (bytesBefore entry kind)⟩).map (opening ++ ·)) ∧
      ∀ token ∈ opening, token.span.start.offset < bytesBefore entry kind := by
  obtain ⟨opening, -, reads⟩ := (spelled_wrapperOpening named kind).tokens .first
  rw [advanceAll_wrapperOpening named] at reads
  refine ⟨opening, reads, fun token member => ?_⟩
  -- Alone, the line has the same tokens and the end of input.
  have alone := reads []
  rw [List.append_nil, @tokensFrom_nil ⟨[], _⟩ rfl] at alone
  have pieces : Pieces [] (wrapperOpening entry kind).toList _ := pieces_of_tokensFrom alone [] rfl
  obtain ⟨others, same, solid⟩ := pieces.ended
  obtain ⟨rfl, -⟩ := List.append_inj' same rfl
  obtain ⟨-, -, within, nonempty⟩ := pieces.offsets (List.mem_append_left _ member)
  have bytes := offset_behind_wrapperOpening entry kind []
  rw [List.append_nil] at bytes
  exact Nat.lt_of_lt_of_le (nonempty (solid token member)) (within.trans bytes.le)

/-- The tokens of the line behind placed input stop behind all bytes of the input. -/
theorem exists_closing {entry : String} (named : IsWord entry.toList (.identifier entry))
    (kind : WrapKind) (input : List Char) :
    ∃ closing : List Token,
      tokensFrom ⟨(wrapperClosing kind).toList, ((Cursor.atStart (placed kind input)).moved
        (shift entry kind)).position.advanceAll (placed kind input ++ ['\n'])⟩ = .ok closing ∧
      ∀ token ∈ closing,
        bytesBefore entry kind + bytesOfPlaced kind input < token.span.stop.offset := by
  have place : ((Cursor.atStart (placed kind input)).moved (shift entry kind)).position.advanceAll
      (placed kind input ++ ['\n']) =
        .behind ((wrapperOpening entry kind).toList ++ (placed kind input ++ ['\n'])) := by
    rw [← Position.advanceAll_first, Position.advanceAll_append .first,
      advanceAll_wrapperOpening named]
    rfl
  obtain ⟨closing, final, -, -, read⟩ := tokensFrom_wrapperClosing kind
    (.behind ((wrapperOpening entry kind).toList ++ (placed kind input ++ ['\n'])))
  refine ⟨closing ++ [final], place ▸ read, fun token member => ?_⟩
  obtain ⟨further, forward, -⟩ := (pieces_of_tokensFrom read _ rfl).offsets member
  have bytes : (String.ofList (placed kind input ++ ['\n'])).utf8ByteSize =
      bytesOfPlaced kind input + 1 := by
    rw [String.ofList_append, String.utf8ByteSize_append]
    rfl
  rw [offset_behind_wrapperOpening, bytes] at further
  exact Nat.lt_of_lt_of_le (Nat.lt_of_succ_le further) forward

/-- The text around placed input has the tokens of the line in front, those of the input one line
further down, and those of the line behind. -/
theorem tokens_around {entry : String} (named : IsWord entry.toList (.identifier entry))
    {kind : WrapKind} {input : List Char} {tokens : List Token}
    (read : tokenize (wrapperText entry kind (Text.trimEnd input)) = .ok tokens) :
    ∃ opening own stop closing, stop.lexeme = .endOfInput ∧
      tokensFrom (.atStart (placed kind input)) = .ok (own ++ [stop]) ∧
      tokens = opening ++ (own.map (Token.moved (shift entry kind)) ++ closing) ∧
      (∀ token ∈ opening, token.span.start.offset < bytesBefore entry kind) ∧
      ∀ token ∈ closing,
        bytesBefore entry kind + bytesOfPlaced kind input < token.span.stop.offset := by
  obtain ⟨inside, placedRead⟩ := ok_of_tokenize_wrapperText named read
  obtain ⟨opening, reads, before⟩ := exists_opening named kind
  obtain ⟨closing, closes, behind⟩ := exists_closing named kind input
  obtain ⟨stop, ended, split⟩ := exists_split placedRead
  rw [split] at placedRead
  have moved := tokensFrom_moved (carries_below 1 (bytesBefore entry kind))
    (.atStart (placed kind input))
  rw [placedRead] at moved
  obtain ⟨front, last, same, -, -, longer⟩ := tokensFrom_newline moved
  rw [List.map_append, List.map_singleton] at same
  obtain ⟨rfl, -⟩ := List.append_inj' same rfl
  have whole := reads (placed kind input ++ '\n' :: (wrapperClosing kind).toList)
  rw [← toList_wrapperText] at whole
  have text := read.symm.trans (whole.trans (congrArg (Except.map _)
    ((longer _).trans (congrArg (Except.map _) closes))))
  exact ⟨opening, _, stop, closing, ended, placedRead, Except.ok.inj text, before, behind⟩

/-- The tokens of input are those of what is placed of it and its end, and perhaps a semicolon
between them. -/
theorem tokenize_of_own {kind : WrapKind} {text : String} {own : List Token} {stop : Token}
    (ended : stop.lexeme = .endOfInput)
    (read : tokensFrom (.atStart (placed kind text.toList)) = .ok (own ++ [stop])) :
    ∃ dropped, tokenize text = .ok (own ++ dropped) ∧
      (dropped.map Token.lexeme = [.endOfInput] ∨
        kind = .value ∧ dropped.map Token.lexeme = [.mark .semicolon, .endOfInput]) := by
  cases kind with
  | value =>
    obtain ⟨all, final, ends, whole, rfl | ⟨span, rfl⟩⟩ := tokenize_of_placed ended read
    · exact ⟨[final], whole, .inl (congrArg (· :: []) ends)⟩
    · rw [List.append_assoc] at whole
      exact ⟨_, whole, .inr ⟨rfl, congrArg (_ :: · :: []) ends⟩⟩
  | statements =>
    obtain ⟨blanks, split, allBlank⟩ := trimEnd_split text.toList
    obtain ⟨final, ends, whole⟩ := tokensFrom_append_blanks allBlank ended read
    refine ⟨[final], ?_, .inl (congrArg (· :: []) ends)⟩
    rw [tokenize, Cursor.atStart, split]
    exact whole

/-! ## The window -/

/-- A place of placed input is one line further down in the text around it, and the window of the
input takes it back to its line and column. -/
theorem mapPosition_below {kind : WrapKind} {input front : List Char}
    (leads : front <+: placed kind input) (bytes : Nat) :
    (LineWindow.ofText 1 (Text.trimEnd input)).mapPosition ((Position.behind front).below 1 bytes) =
      .atColumn (Position.behind front).line (Position.behind front).column := by
  have breaks : front.count '\n' ≤ (Text.trimEnd input).count '\n' :=
    (leads.trans (placed_leads_trimEnd kind input)).sublist.count_le '\n'
  have lines := Text.max_lineCount_trimEnd input
  refine (LineWindow.mapPosition_of_user ?_ ?_ ?_).trans rfl <;>
  · simp only [LineWindow.ofText, Position.below, Position.behind]
    omega

/-- The tokens of placed input lie among its bytes in the text around it. -/
theorem liesBetween_of_placed {kind : WrapKind} {input : List Char} {own : List Token}
    {stop : Token} (read : tokensFrom (.atStart (placed kind input)) = .ok (own ++ [stop]))
    {token : Token} (member : token ∈ own) (entry : String) :
    (token.moved (shift entry kind)).liesBetween (bytesBefore entry kind)
      (bytesBefore entry kind + bytesOfPlaced kind input) = true := by
  have pieces : Pieces [] (placed kind input) _ := pieces_of_tokensFrom read [] rfl
  obtain ⟨-, -, within, -⟩ := pieces.offsets (List.mem_append_left _ member)
  have stops : token.span.stop.offset ≤ bytesOfPlaced kind input := within
  refine decide_eq_true ⟨Nat.le_add_left _ _, ?_⟩
  change token.span.stop.offset + bytesBefore entry kind ≤ _
  omega

theorem filter_liesBetween_around {entry : String} {kind : WrapKind} {input : List Char}
    {opening own closing : List Token} {stop : Token}
    (read : tokensFrom (.atStart (placed kind input)) = .ok (own ++ [stop]))
    (before : ∀ token ∈ opening, token.span.start.offset < bytesBefore entry kind)
    (behind : ∀ token ∈ closing,
      bytesBefore entry kind + bytesOfPlaced kind input < token.span.stop.offset) :
    (opening ++ (own.map (Token.moved (shift entry kind)) ++ closing)).filter
        (Token.liesBetween (bytesBefore entry kind)
          (bytesBefore entry kind + bytesOfPlaced kind input)) =
      own.map (Token.moved (shift entry kind)) := by
  have openingOut : opening.filter (Token.liesBetween (bytesBefore entry kind)
      (bytesBefore entry kind + bytesOfPlaced kind input)) = [] :=
    List.filter_eq_nil_iff.mpr fun token member within =>
      absurd (before token member) (Nat.not_lt.mpr (of_decide_eq_true within).1)
  have closingOut : closing.filter (Token.liesBetween (bytesBefore entry kind)
      (bytesBefore entry kind + bytesOfPlaced kind input)) = [] :=
    List.filter_eq_nil_iff.mpr fun token member within =>
      absurd (behind token member) (Nat.not_lt.mpr (of_decide_eq_true within).2)
  have ownIn : (own.map (Token.moved (shift entry kind))).filter
      (Token.liesBetween (bytesBefore entry kind)
        (bytesBefore entry kind + bytesOfPlaced kind input)) =
      own.map (Token.moved (shift entry kind)) := by
    refine List.filter_eq_self.mpr fun token member => ?_
    obtain ⟨original, originalMember, rfl⟩ := List.mem_map.mp member
    exact liesBetween_of_placed read originalMember entry
  rw [List.filter_append, List.filter_append, openingOut, closingOut, ownIn, List.nil_append,
    List.append_nil]

/-- The window takes a token of placed input back to the lines and columns that it has there. -/
theorem mapSpan_of_placed {kind : WrapKind} {input : List Char} {own : List Token} {stop : Token}
    (read : tokensFrom (.atStart (placed kind input)) = .ok (own ++ [stop])) {token : Token}
    (member : token ∈ own) (entry : String) :
    (LineWindow.ofText 1 (Text.trimEnd input)).mapSpan (token.span.moved (shift entry kind)) =
      ⟨.atColumn token.span.start.line token.span.start.column,
        .atColumn token.span.stop.line token.span.stop.column⟩ := by
  have pieces : Pieces [] (placed kind input) _ := pieces_of_tokensFrom read [] rfl
  obtain ⟨front, spelling, after, split, -, spans, -⟩ :=
    pieces.of_mem (List.mem_append_left _ member)
  rw [List.nil_append] at split
  have leads : front ++ spelling <+: placed kind input := split ▸ List.prefix_append _ _
  rw [spans]
  exact congrArg₂ Span.mk (mapPosition_below ((List.prefix_append _ _).trans leads) _)
    (mapPosition_below leads _)

/-- In the text around placed input, the tokens among the bytes of the input are those of the
input itself, but for a semicolon at its end that is not placed. The window takes each of them
back to the line and column that it has in the input. Every place of the text, also in the lines
around the input, goes to one of the lines of the input. -/
theorem window_leads_back_to_the_input (supply : NameSupply) (text : String) (kind : WrapKind)
    (taken : List String) :
    let wrapped := (wrap supply text.toList kind taken).1
    let start := bytesBefore wrapped.entry kind
    (∀ tokens, tokenize wrapped.text = .ok tokens →
      ∃ own dropped, tokenize text = .ok (own ++ dropped) ∧
        (dropped.map Token.lexeme = [.endOfInput] ∨
          kind = .value ∧ dropped.map Token.lexeme = [.mark .semicolon, .endOfInput]) ∧
        tokens.filter (Token.liesBetween start (start + bytesOfPlaced kind text.toList)) =
          own.map (Token.moved (shift wrapped.entry kind)) ∧
        ∀ token ∈ own, wrapped.window.mapSpan (token.span.moved (shift wrapped.entry kind)) =
          ⟨.atColumn token.span.start.line token.span.start.column,
            .atColumn token.span.stop.line token.span.stop.column⟩) ∧
    ∀ front, front <+: wrapped.text.toList →
      1 ≤ (wrapped.window.mapPosition (.behind front)).line ∧
      (wrapped.window.mapPosition (.behind front)).line ≤
        max (Text.lineCount (Text.trimEnd text.toList)) 1 := by
  intro wrapped start
  have named := isWord_entry supply text.toList kind taken
  refine ⟨fun tokens read => ?_, fun front _ => ?_⟩
  · obtain ⟨opening, own, stop, closing, ended, placedRead, split, before, behind⟩ :=
      tokens_around named read
    obtain ⟨dropped, whole, rest⟩ := tokenize_of_own ended placedRead
    refine ⟨own, dropped, whole, rest, ?_, fun token member => ?_⟩
    · rw [split]
      exact filter_liesBetween_around placedRead before behind
    · exact mapSpan_of_placed placedRead member wrapped.entry
  · have lines : 0 < wrapped.window.userLines :=
      Nat.lt_of_lt_of_le Nat.one_pos (Nat.le_max_right _ _)
    have inText : (Position.behind front).line ≠ 0 := by simp [Position.behind]
    exact LineWindow.line_mapPosition Nat.one_ne_zero lines inText

/-- An expression of two lines, without the semicolon behind it. Its last token stands in the third
line of the text around it. -/
theorem window_leads_back_to_an_expression :
    let text := "1 +\n  x;\n"
    let wrapped := (wrap .new text.toList .value []).1
    ∃ tokens own dropped, tokenize wrapped.text = .ok tokens ∧
      tokenize text = .ok (own ++ dropped) ∧
      own.map Token.lexeme = [.integer 1, .mark .plus, .identifier "x"] ∧
      tokens.filter (Token.liesBetween (bytesBefore wrapped.entry .value)
        (bytesBefore wrapped.entry .value + bytesOfPlaced .value text.toList)) =
          own.map (Token.moved (shift wrapped.entry .value)) ∧
      wrapped.window.mapSpan ⟨⟨3, 3, 39⟩, ⟨3, 4, 40⟩⟩ = ⟨.atColumn 2 3, .atColumn 2 4⟩ := by
  intro text wrapped
  have facts : ((tokenize wrapped.text).toOption.map fun tokens =>
      (tokens.filter (Token.liesBetween (bytesBefore wrapped.entry .value)
        (bytesBefore wrapped.entry .value + bytesOfPlaced .value text.toList))).map Token.lexeme) =
      some [.integer 1, .mark .plus, .identifier "x"] := by decide +kernel
  have back : wrapped.window.mapSpan ⟨⟨3, 3, 39⟩, ⟨3, 4, 40⟩⟩ =
      ⟨.atColumn 2 3, .atColumn 2 4⟩ := by decide +kernel
  obtain ⟨tokens, read, lexemes⟩ := Option.map_eq_some_iff.mp facts
  have read := ok_of_toOption read
  obtain ⟨own, dropped, whole, -, among, -⟩ :=
    (window_leads_back_to_the_input .new text .value []).1 tokens read
  rw [among, List.map_map] at lexemes
  exact ⟨tokens, own, dropped, read, whole, lexemes, among, back⟩

end Input

end IncrementalC
