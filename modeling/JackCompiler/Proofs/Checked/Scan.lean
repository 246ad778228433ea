import JackCompiler.Proofs.Checked.Scanning

/-! A source is scanned without a panic, and its tokens are those of an unbounded scan. -/

namespace JackCompiler

/-- The token that stands behind a gap, with its place by byte, line and column. -/
theorem Piece.token_start (before gap lexeme : List Char) (kind : TokenKind) :
    Piece.token (Position.start.past before) ⟨gap, lexeme, kind⟩ =
      ⟨kind, ⟨byteCount (before ++ gap), byteCount lexeme,
        (Position.start.past (before ++ gap)).location⟩⟩ := by
  -- The token takes the bytes between the place behind the gap and the place behind itself.
  simp only [Piece.token, ← Position.past_append]
  simp only [Position.past_start, byteCount_append, Nat.add_sub_cancel_left]

namespace CharCursor.Stands

variable {cursor : CharCursor} {source : String} {before gap lexeme behind rest : List Char}
  {kind : TokenKind} {fault : LexicalFault}

/-- A token behind a gap is read with its place, and reading goes on behind it. -/
theorem nextToken_token (small : source.utf8ByteSize < 2 ^ 32)
    (separates : Separates gap (lexeme ++ behind)) (lexed : Lexeme lexeme kind behind)
    (stands : cursor.Stands source before (gap ++ (lexeme ++ behind))) :
    ∃ after, cursor.nextToken source =
        .ok (.ok (some (Piece.token (Position.start.past before) ⟨gap, lexeme, kind⟩, after))) ∧
      after.Stands source (before ++ (gap ++ lexeme)) behind := by
  obtain ⟨start, skipped, reached⟩ := stands.skipGap small separates lexed.not_startsGap
  obtain ⟨last, atLast, read⟩ := reached.readKind_lexeme small lexed
  obtain ⟨after, finished, further⟩ := atLast.finish small kind
  rw [List.append_assoc] at further
  -- The token is not empty, so the gap does not reach to the end of the source.
  obtain ⟨first, more, nonempty, -⟩ := lexed.ofChars
  rw [nonempty, List.cons_append] at reached
  refine ⟨after, ?_, further⟩
  rw [nextToken, Checked.bind_eq skipped, if_neg (by simp [reached.atEnd_cons]),
    Checked.bind_eq read]
  show (last.finish start.tokenStart kind >>= _) = _
  rw [reached.tokenStart_eq small, Checked.bind_eq finished, Piece.token_start]
  rfl

/-- What is malformed behind a gap is reported at its start. -/
theorem nextToken_malformed (small : source.utf8ByteSize < 2 ^ 32)
    (separates : Separates gap rest) (malformed : Malformed rest fault)
    (stands : cursor.Stands source before (gap ++ rest)) :
    cursor.nextToken source =
      .ok (.error ⟨(Position.start.past (before ++ gap)).location, .lexical fault⟩) := by
  -- Something malformed is not empty either, so it is read behind the gap.
  obtain ⟨start, skipped, reached⟩ := stands.skipGap small separates malformed.not_startsGap
  have read := reached.readKind_malformed small malformed
  obtain ⟨first, more, rfl, -⟩ := malformed.ofChars
  have location := reached.location_eq
  rw [nextToken, Checked.bind_eq skipped, if_neg (by simp [reached.atEnd_cons]),
    Checked.bind_eq read, location]
  rfl

/-- Behind the last gap no token is left. -/
theorem nextToken_nothing (small : source.utf8ByteSize < 2 ^ 32) (separates : Separates gap [])
    (stands : cursor.Stands source before gap) :
    cursor.nextToken source = .ok (.ok none) := by
  rw [← List.append_nil gap] at stands
  obtain ⟨start, skipped, reached⟩ := stands.skipGap small separates nofun
  rw [nextToken, Checked.bind_eq skipped, if_pos reached.atEnd_nil]
  rfl

end CharCursor.Stands

namespace Scan

variable {source : String} {cursor after : CharCursor} {token : Token} {fault : Fault}
  {found : Array Token}

/-- A token that is read is found, and the scan goes on behind it. -/
theorem ofCursor_token (read : cursor.nextToken source = .ok (.ok (some (token, after)))) :
    ofCursor source cursor found = ofCursor source after (found.push token) := by
  rw [ofCursor]
  split <;> simp_all

/-- The scan ends where no token is left. -/
theorem ofCursor_nothing (read : cursor.nextToken source = .ok (.ok none)) :
    ofCursor source cursor found = .ok ⟨found.toList, none⟩ := by
  rw [ofCursor]
  split <;> simp_all

/-- The scan ends where a fault is. -/
theorem ofCursor_fault (read : cursor.nextToken source = .ok (.error fault)) :
    ofCursor source cursor found = .ok ⟨found.toList, some fault⟩ := by
  rw [ofCursor]
  split <;> simp_all

/-- From wherever a cursor stands in a small source, the same tokens are found as by a scan of the
text that is left. -/
theorem ofCursor_eq {before text : List Char} {parts : Decomposition}
    {fault? : Option LexicalFault} (small : source.utf8ByteSize < 2 ^ 32)
    (decomposes : Decomposes text parts) (leaves : Leaves parts.rest fault?)
    (stands : cursor.Stands source before text) :
    ofCursor source cursor found =
      .ok (ofLexer ⟨Position.start.past before, text⟩ found) := by
  -- Each token is one turn of both scans, and what is left ends both.
  induction decomposes generalizing before cursor found with
  | @ending gap rest separates =>
    cases fault? with
    | none =>
      have empty : rest = [] := leaves
      subst empty
      rw [List.append_nil] at stands ⊢
      rw [ofCursor_nothing (stands.nextToken_nothing small separates),
        ofLexer_nothing (Lexer.next_nothing separates)]
    | some fault =>
      rw [ofCursor_fault (stands.nextToken_malformed small separates leaves),
        ofLexer_fault (Lexer.next_malformed separates leaves), Position.past_append]
  | token separates lexed _ ih =>
    obtain ⟨after, read, further⟩ := stands.nextToken_token small separates lexed
    rw [ofCursor_token read, ih leaves further,
      ofLexer_token (Lexer.next_token separates lexed), Position.past_append]

/-- A source whose bytes can be counted is scanned without a panic, and gives the same tokens. -/
theorem checked_eq (small : source.utf8ByteSize < 2 ^ 32) :
    Scan.checked source = .ok (ofSource source) := by
  obtain ⟨cursor, moved, stands⟩ := CharCursor.Stands.first source
  obtain ⟨parts, fault?, decomposes, leaves⟩ := exists_decomposition source.toList
  rw [Scan.checked, Checked.bind_eq moved, ofCursor_eq small decomposes leaves stands]
  rfl

/-- A token ends no further to the right than its source has bytes. -/
theorem column_add_size_le (before : List Char) {text : List Char} {parts : Decomposition}
    (decomposes : Decomposes text parts) :
    ∀ token ∈ Piece.tokens (Position.start.past before) parts.pieces,
      token.location.column + token.span.size ≤ byteCount (before ++ text) + 1 := by
  -- The tokens are gone through from the front, with what stands before each of them.
  induction decomposes generalizing before with
  | ending => exact nofun
  | @token gap lexeme behind last rest kind pieces _ _ _ ih =>
    rw [Piece.tokens, ← Position.past_append]
    refine List.forall_mem_cons.mpr ⟨?_, fun token member => ?_⟩
    · -- The characters before the token have no fewer bytes than columns.
      obtain ⟨-, column⟩ := Position.location_past_le (before ++ gap)
      have bytes := length_le_byteCount (before ++ gap)
      rw [Piece.token_start, ← List.append_assoc, ← List.append_assoc, byteCount_append _ behind,
        byteCount_append _ lexeme]
      show (Position.start.past (before ++ gap)).location.column + byteCount lexeme ≤ _
      omega
    · have bound := ih (before ++ Piece.text ⟨gap, lexeme, kind⟩) token member
      rwa [Piece.text, List.append_assoc, List.append_assoc] at bound

/-- The column behind the last token is a word, unless the source has as many bytes as words go. -/
theorem checkedEnding_eq (small : source.utf8ByteSize < 2 ^ 32 - 1) :
    (ofSource source).checkedEnding = .ok (ofSource source).ending := by
  obtain ⟨parts, fault?, decomposes, leaves⟩ := exists_decomposition source.toList
  have scanned : ofSource source = _ := ofLexer_eq decomposes leaves .start #[]
  have bound := column_add_size_le [] decomposes
  rw [checkedEnding, ending]
  -- Only behind a source without a fault a column is reported.
  cases (ofSource source).fault? with
  | some fault => rfl
  | none =>
    cases last : (ofSource source).tokens.getLast? with
    | none => rfl
    | some token =>
      have member : token ∈ Piece.tokens .start parts.pieces := by
        have member := List.mem_of_getLast? last
        rwa [scanned, List.nil_append] at member
      have column := bound token member
      rw [List.nil_append, byteCount, String.ofList_toList] at column
      show (Checked.word 32 (token.location.column + token.span.size) >>= _) = _
      rw [Checked.bind_eq (Checked.word_eq (by omega))]
      rfl

end Scan

end JackCompiler
