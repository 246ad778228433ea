import JackCompiler.Proofs.Token.Results

/-! Where tokens stand in their source, and that nothing but gaps stands between them. -/

namespace JackCompiler

/-- The number of bytes that encode some characters. -/
def byteCount (text : List Char) : Nat := (String.ofList text).utf8ByteSize

/-- The bytes of one text stand behind those of the other. -/
theorem byteCount_append (text more : List Char) :
    byteCount (text ++ more) = byteCount text + byteCount more := by
  rw [byteCount, String.ofList_append, String.utf8ByteSize_append]
  rfl

/-- One character takes the bytes of its encoding. -/
theorem byteCount_singleton (c : Char) : byteCount [c] = c.utf8Size := by
  rw [byteCount, ← String.singleton_eq_ofList, String.utf8ByteSize_singleton]

/-- A text takes at least as many bytes as it has characters. -/
theorem length_le_byteCount (text : List Char) : text.length ≤ byteCount text := by
  -- No character is encoded by no byte.
  induction text with
  | nil => exact Nat.zero_le _
  | cons c text ih =>
    have size := c.utf8Size_pos
    rw [← List.singleton_append, byteCount_append, byteCount_singleton, List.length_append,
      List.length_singleton]
    omega

/-- The place behind some characters tells their bytes, their lines, and what their last line
holds. -/
theorem Position.past_start (before : List Char) :
    Position.start.past before =
      ⟨byteCount before, 1 + before.count '\n', 1 + (before.rtakeWhile (· ≠ '\n')).length⟩ := by
  -- The last character either ends a line or makes the last line longer.
  induction before using List.reverseRecOn with
  | nil => rfl
  | append_singleton before c ih =>
    rw [Position.past_append, ih, byteCount_append, byteCount_singleton]
    show Position.advance _ c = _
    rw [Position.advance, Location.advance]
    by_cases newline : c = '\n'
    · subst newline
      simp [Nat.add_assoc]
    · simp [newline, Nat.add_assoc]

/-- The end of a part of a source is a place in it. -/
theorem exists_pos?_eq {source : String} (before : List Char) {behind : List Char}
    (text : source.toList = before ++ behind) :
    ∃ place, source.pos? ⟨byteCount before⟩ = some place ∧
      place.offset.byteIdx = byteCount before := by
  -- A source with a part in front of the rest can be cut between the two.
  have parts : source = String.ofList before ++ String.ofList behind := by
    rw [← String.ofList_append, ← text, String.ofList_toList]
  have valid : String.Pos.Raw.IsValid source ⟨byteCount before⟩ :=
    String.Pos.Raw.isValid_iff_exists_append.mpr ⟨_, _, parts, rfl⟩
  have inside : String.Pos.Raw.isValidForSlice source.toSlice ⟨byteCount before⟩ = true :=
    String.Pos.Raw.isValidForSlice_eq_true_iff.mpr
      (String.Pos.Raw.isValidForSlice_toSlice_iff.mpr valid)
  refine ⟨.ofToSlice (source.toSlice.pos _ (String.Pos.Raw.isValidForSlice_eq_true_iff.mp inside)),
    ?_, rfl⟩
  rw [String.pos?, String.Slice.pos?, dif_pos inside]
  rfl

/-- A span over a part of a source covers the characters of that part. -/
theorem Span.fragment?_eq {source : String} {before lexeme behind : List Char}
    (text : source.toList = before ++ (lexeme ++ behind)) {span : Span}
    (index : span.index = byteCount before) (size : span.size = byteCount lexeme) :
    span.fragment? source = some (String.ofList lexeme) := by
  obtain ⟨first, starts, firstByte⟩ := exists_pos?_eq before text
  obtain ⟨last, stops, lastByte⟩ :=
    exists_pos?_eq (before ++ lexeme) (by rw [text, List.append_assoc])
  have stop : span.stop = byteCount (before ++ lexeme) := by
    rw [Span.stop, index, size, byteCount_append]
  -- Between the two places stand the bytes of the part.
  have bytes : source.toByteArray = (String.ofList before).toByteArray ++
      ((String.ofList lexeme).toByteArray ++ (String.ofList behind).toByteArray) := by
    rw [← String.toByteArray_append, ← String.toByteArray_append, ← String.ofList_append,
      ← String.ofList_append, ← text, String.ofList_toList]
  have covered : (source.extract first last).toByteArray = (String.ofList lexeme).toByteArray := by
    rw [String.toByteArray_extract, firstByte, lastByte, byteCount_append, bytes]
    calc
      _ = ByteArray.extract _ (byteCount before + 0) (byteCount before + byteCount lexeme) := rfl
      _ = ByteArray.extract _ 0 (byteCount lexeme) :=
        ByteArray.extract_append_size_add' String.size_toByteArray.symm
      _ = _ := ByteArray.extract_append_eq_left String.size_toByteArray.symm
  rw [Span.fragment?, index, stop, starts, stops]
  exact congrArg some (String.toByteArray_inj.mp covered)

/-- The characters that write a token: digits of any value for an integer, and the text by which
messages name the token for any other kind. -/
def TokenKind.SpelledBy (lexeme : List Char) : TokenKind → Prop
  | .integer value =>
    lexeme ≠ [] ∧ (∀ c ∈ lexeme, c.isDigit = true) ∧ Nat.ofDigitChars 10 lexeme 0 = value
  | kind => String.ofList lexeme = kind.text

/-- A token is spelled by its characters. -/
theorem Lexeme.spelledBy {lexeme behind : List Char} {kind : TokenKind}
    (lexed : Lexeme lexeme kind behind) : kind.SpelledBy lexeme := by
  cases lexed with
  | keyword word => exact String.ofList_toList
  | identifier => rfl
  | integer number => exact ⟨number.nonempty, number.inside, rfl⟩
  | @string body =>
    show String.ofList (['"'] ++ (body ++ ['"'])) = "\"" ++ String.ofList body ++ "\""
    rw [String.ofList_append, String.ofList_append, String.append_assoc]
  | symbol => exact String.singleton_eq_ofList.symm

/-- A token stands where its span says: behind the given characters, and over the given ones. -/
structure Token.StandsIn (token : Token) (source : String) (before lexeme behind : List Char) :
    Prop where
  text : source.toList = before ++ (lexeme ++ behind)
  index : token.span.index = byteCount before
  size : token.span.size = byteCount lexeme
  line : token.location.line = 1 + before.count '\n'
  column : token.location.column = 1 + (before.rtakeWhile (· ≠ '\n')).length
  nonempty : lexeme ≠ []
  spelled : token.kind.SpelledBy lexeme

namespace Token.StandsIn

variable {token : Token} {source : String} {before lexeme behind : List Char}

/-- The span of a token covers the characters of the token. -/
theorem fragment? (stands : token.StandsIn source before lexeme behind) :
    token.span.fragment? source = some (String.ofList lexeme) :=
  Span.fragment?_eq stands.text stands.index stands.size

/-- A span ends behind the characters of its token. -/
theorem stop (stands : token.StandsIn source before lexeme behind) :
    token.span.stop = byteCount (before ++ lexeme) := by
  rw [Span.stop, stands.index, stands.size, byteCount_append]

/-- A span ends inside the source. -/
theorem stop_le (stands : token.StandsIn source before lexeme behind) :
    token.span.stop ≤ source.utf8ByteSize := by
  have whole : source.utf8ByteSize = byteCount (before ++ lexeme ++ behind) := by
    rw [byteCount, List.append_assoc, ← stands.text, String.ofList_toList]
  rw [whole, stands.stop, byteCount_append (before ++ lexeme)]
  exact Nat.le_add_right _ _

/-- Lines and columns are numbered no higher than bytes. -/
theorem location_le (stands : token.StandsIn source before lexeme behind) :
    token.location.line ≤ source.utf8ByteSize ∧ token.location.column ≤ source.utf8ByteSize := by
  -- Line and column count some of the characters before the token, which has a byte of its own.
  have inside := stands.stop_le
  have bytes : before.length + lexeme.length ≤ byteCount (before ++ lexeme) := by
    rw [← List.length_append]
    exact length_le_byteCount _
  have lines : before.count '\n' ≤ before.length := List.count_le_length
  have columns : (before.rtakeWhile (· ≠ '\n')).length ≤ before.length :=
    (List.rtakeWhile_suffix _ before).length_le
  have own : 0 < lexeme.length := List.length_pos_iff.mpr stands.nonempty
  rw [stands.stop] at inside
  rw [stands.line, stands.column]
  omega

end Token.StandsIn

namespace Lexer

variable {lexer : Lexer} {source : String} {before : List Char} {token : Token}

/-- The next token stands behind a gap, and reading goes on behind the token. -/
theorem StandsBehind.exists_token (stands : lexer.StandsBehind source before)
    (read : lexer.next.1 = .ok (some token)) :
    ∃ gap lexeme behind, lexer.rest = gap ++ (lexeme ++ behind) ∧
      Separates gap (lexeme ++ behind) ∧ token.StandsIn source (before ++ gap) lexeme behind ∧
      lexer.next.2.StandsBehind source (before ++ gap ++ lexeme) ∧ lexer.next.2.rest = behind := by
  obtain ⟨gap, lexeme, kind, behind, rest, separates, lexed, found, goesOn⟩ :=
    exists_lexeme_of_next read
  have start : lexer.position.past gap = Position.start.past (before ++ gap) := by
    rw [stands.position, Position.past_append]
  have stop : (lexer.position.past gap).past lexeme =
      Position.start.past (before ++ gap ++ lexeme) := by
    rw [start, ← Position.past_append]
  have text : source.toList = before ++ gap ++ (lexeme ++ behind) := by
    rw [stands.text, rest, List.append_assoc]
  refine ⟨gap, lexeme, behind, rest, separates, ?_, ?_, ?_⟩
  · -- The span goes from the place behind the gap to the place behind the token.
    have span : token.span = ⟨byteCount (before ++ gap), byteCount lexeme,
        ⟨1 + (before ++ gap).count '\n',
          1 + ((before ++ gap).rtakeWhile (· ≠ '\n')).length⟩⟩ := by
      rw [found]
      simp only [Piece.token]
      rw [stop, start, Position.past_start, Position.past_start, byteCount_append _ lexeme,
        Nat.add_sub_cancel_left]
    refine ⟨text, ?_, ?_, ?_, ?_, ?_, ?_⟩
    · rw [span]
    · rw [span]
    · rw [Token.location, span]
    · rw [Token.location, span]
    · obtain ⟨first, more, rfl, -⟩ := lexed.ofChars
      exact List.cons_ne_nil first more
    · rw [found]
      exact lexed.spelledBy
  · rw [goesOn]
    refine ⟨?_, ?_⟩
    · rw [Position.past_append, stop]
    · rw [text, List.append_assoc (before ++ gap)]
  · rw [goesOn]

/-- A token that is given later starts behind the end of one that was given earlier. -/
theorem StandsBehind.stop_le_index (stands : lexer.StandsBehind source before)
    {earlier later : Nat} {other : Token} (order : earlier < later)
    (gave : lexer.result earlier = .ok (some other))
    (given : lexer.result later = .ok (some token)) : other.span.stop ≤ token.span.index := by
  obtain ⟨passed, reached⟩ := stands.after earlier
  obtain ⟨gap, lexeme, behind, -, -, placed, further, -⟩ := reached.exists_token gave
  -- The later calls start behind the token that the earlier one gave.
  have last : (lexer.after earlier).next.2.after (later - (earlier + 1)) = lexer.after later := by
    show (lexer.after (earlier + 1)).after (later - (earlier + 1)) = lexer.after later
    rw [← after_add, Nat.add_sub_cancel' order]
  obtain ⟨between, reached'⟩ := further.after (later - (earlier + 1))
  rw [last] at reached'
  obtain ⟨gap', lexeme', behind', -, -, placed', -⟩ := reached'.exists_token given
  rw [placed.stop, placed'.index, byteCount_append _ gap', byteCount_append _ between]
  omega

end Lexer

/-- From a number of bytes on, a text consists of the tokens, with gaps before, between and behind
them and nothing else. -/
inductive Tiles : Nat → List Char → List Token → Prop where
  | ending {offset : Nat} {gap : List Char} (separates : Separates gap []) : Tiles offset gap []
  | token {offset : Nat} {gap lexeme behind : List Char} {token : Token} {tokens : List Token}
      (separates : Separates gap (lexeme ++ behind))
      (index : token.span.index = offset + byteCount gap)
      (size : token.span.size = byteCount lexeme) (more : Tiles token.span.stop behind tokens) :
      Tiles offset (gap ++ (lexeme ++ behind)) (token :: tokens)

/-- Tokens that are read one after another up to the end tile the text that is read. -/
theorem tiles_of_results {lexer : Lexer} {source : String} {before : List Char}
    (stands : lexer.StandsBehind source before) {tokens : List Token}
    (results : ∀ count ≤ tokens.length, lexer.result count = .ok tokens[count]?) :
    Tiles (byteCount before) lexer.rest tokens := by
  -- The first token stands behind a gap, and the others tile what is left behind it.
  induction tokens generalizing lexer before with
  | nil => exact .ending (Lexer.separates_of_next (results 0 (Nat.le_refl 0)))
  | cons token tokens ih =>
    obtain ⟨gap, lexeme, behind, rest, separates, placed, further, goesOn⟩ :=
      stands.exists_token (results 0 (Nat.zero_le _))
    have more := ih further fun count within => by
      rw [← Lexer.result_succ]
      exact results (count + 1) (Nat.succ_le_succ within)
    rw [goesOn, ← placed.stop] at more
    rw [rest]
    refine .token separates ?_ placed.size more
    rw [placed.index, byteCount_append]

/-- However often a source is asked for the next token, also after faults, each token that it gives
starts where its span says, by byte, line and column, and covers there the characters that spell it,
behind the end of every token given before. If all the results up to the end are tokens, then
nothing but gaps stands before, between and behind them. -/
theorem token_positions (source : String) :
    (∀ (count : Nat) (token : Token),
      (Lexer.ofSource source).result count = .ok (some token) →
        (∃ before lexeme behind, token.StandsIn source before lexeme behind ∧
          token.span.fragment? source = some (String.ofList lexeme)) ∧
        (token.span.stop ≤ source.utf8ByteSize ∧ token.location.line ≤ source.utf8ByteSize ∧
          token.location.column ≤ source.utf8ByteSize) ∧
        ∀ earlier < count, ∀ other : Token,
          (Lexer.ofSource source).result earlier = .ok (some other) →
            other.span.stop ≤ token.span.index) ∧
    ∀ tokens : List Token,
      (∀ count ≤ tokens.length, (Lexer.ofSource source).result count = .ok tokens[count]?) →
        Tiles 0 source.toList tokens := by
  have starts := Lexer.standsBehind_ofSource source
  refine ⟨fun count token given => ?_, fun tokens results => tiles_of_results starts results⟩
  obtain ⟨passed, stands⟩ := starts.after count
  obtain ⟨gap, lexeme, behind, -, -, placed, -⟩ := stands.exists_token given
  refine ⟨⟨_, lexeme, behind, placed, placed.fragment?⟩, ⟨placed.stop_le, placed.location_le⟩, ?_⟩
  intro earlier order other gave
  exact starts.stop_le_index order gave given

/-- Offsets and sizes count bytes, and columns count characters. -/
example : (Lexer.ofSource "\"éé\" y").result 1 =
    .ok (some ⟨.identifier "y", ⟨7, 1, ⟨1, 6⟩⟩⟩) := by
  cbv

end JackCompiler
