import JackCompiler.Proofs.Token.Reading

/-! Every source is made of gaps and tokens in one way only, and a scan finds it. -/

namespace JackCompiler

/-- A token as it is written, with the gap before it. -/
structure Piece where
  gap : List Char
  lexeme : List Char
  kind : TokenKind

/-- The characters of a token and of the gap before it. -/
def Piece.text (piece : Piece) : List Char := piece.gap ++ piece.lexeme

/-- A text taken apart: its tokens, the gap behind the last one, and what is left behind that. -/
structure Decomposition where
  pieces : List Piece
  gap : List Char
  rest : List Char

namespace Decomposition

/-- The kinds of the tokens, in order. -/
def kinds (parts : Decomposition) : List TokenKind := parts.pieces.map Piece.kind

/-- All the characters before what is left. -/
def read (parts : Decomposition) : List Char := parts.pieces.flatMap Piece.text ++ parts.gap

end Decomposition

/-- A text has the given parts, where each gap and each token is judged with all that follows. -/
inductive Decomposes : List Char → Decomposition → Prop where
  | ending {gap rest : List Char} (separates : Separates gap rest) :
      Decomposes (gap ++ rest) ⟨[], gap, rest⟩
  | token {gap lexeme behind last rest : List Char} {kind : TokenKind} {pieces : List Piece}
      (separates : Separates gap (lexeme ++ behind)) (lexed : Lexeme lexeme kind behind)
      (more : Decomposes behind ⟨pieces, last, rest⟩) :
      Decomposes (gap ++ (lexeme ++ behind)) ⟨⟨gap, lexeme, kind⟩ :: pieces, last, rest⟩

/-- What is left behind the last gap: nothing, or what is malformed for the given reason. -/
def Leaves (rest : List Char) : Option LexicalFault → Prop
  | none => rest = []
  | some fault => Malformed rest fault

namespace Decomposition

/-- The tokens and the gaps between them make up the whole text. -/
def Complete (parts : Decomposition) (text : List Char) : Prop :=
  Decomposes text parts ∧ Leaves parts.rest none

end Decomposition

/-- No gap starts where nothing is left, or where something malformed is. -/
theorem Leaves.not_startsGap {rest : List Char} {fault? : Option LexicalFault}
    (leaves : Leaves rest fault?) : ¬StartsGap rest := by
  cases fault? with
  | none =>
    rw [show rest = [] from leaves]
    nofun
  | some fault => exact Malformed.not_startsGap leaves

/-- Every text has parts, down to its end or to something malformed. -/
theorem exists_decomposition (text : List Char) :
    ∃ parts fault?, Decomposes text parts ∧ Leaves parts.rest fault? := by
  -- Behind the longest gap stands the end, a token or something malformed.
  obtain ⟨gap, behind, rfl, separates, stops⟩ := exists_gap text
  by_cases empty : behind = []
  · exact ⟨_, none, .ending separates, empty⟩
  rcases exists_lexeme empty stops with ⟨lexeme, kind, behind, rfl, lexed⟩ | ⟨fault, malformed⟩
  · obtain ⟨⟨pieces, last, rest⟩, fault?, more, leaves⟩ := exists_decomposition behind
    exact ⟨_, fault?, .token separates lexed more, leaves⟩
  · exact ⟨_, some fault, .ending separates, malformed⟩
termination_by text.length
decreasing_by
  -- The token behind the gap has at least one character.
  obtain ⟨first, more, rfl, -⟩ := lexed.ofChars
  simp_all only [List.length_append, List.length_cons]
  omega

section Uniqueness

variable {gap gap' lexeme lexeme' behind behind' : List Char} {kind kind' : TokenKind}

/-- A gap that no gap follows is as long as it can be, so a text starts with one such gap only. -/
theorem Separates.unique (separates : Separates gap behind) (stops : ¬StartsGap behind)
    (separates' : Separates gap' behind') (stops' : ¬StartsGap behind')
    (same : gap ++ behind = gap' ++ behind') : gap = gap' ∧ behind = behind' := by
  -- Both gaps are as long as what is counted in the text.
  have counted := separates.length_eq stops 0
  rw [same, separates'.length_eq stops' 0] at counted
  exact List.append_inj same (by omega)

/-- A text starts with one token only. -/
theorem Lexeme.unique (lexed : Lexeme lexeme kind behind) (lexed' : Lexeme lexeme' kind' behind')
    (same : lexeme ++ behind = lexeme' ++ behind') :
    lexeme = lexeme' ∧ kind = kind' ∧ behind = behind' := by
  -- Both tokens have the kind and the length of the one reading at the head of the text.
  obtain ⟨first, more, rfl, reads⟩ := lexed.ofChars
  obtain ⟨first', more', rfl, reads'⟩ := lexed'.ofChars
  obtain ⟨rfl, rest⟩ : first = first' ∧ more ++ behind = more' ++ behind' := List.cons.inj same
  rw [rest, reads'] at reads
  injection reads with result length
  obtain ⟨lexemes, behinds⟩ := List.append_inj same length.symm
  exact ⟨lexemes, (Except.ok.inj result).symm, behinds⟩

/-- What is malformed starts with no token. -/
theorem Lexeme.not_malformed {fault : LexicalFault} (lexed : Lexeme lexeme kind behind) :
    ¬Malformed (lexeme ++ behind) fault := by
  intro malformed
  obtain ⟨first, more, rfl, reads⟩ := lexed.ofChars
  obtain ⟨first', rest, same, fails⟩ := malformed.ofChars
  obtain ⟨rfl, rfl⟩ : first = first' ∧ more ++ behind = rest := List.cons.inj same
  rw [reads] at fails
  cases fails

/-- Something is malformed for one reason only. -/
theorem Malformed.unique {text : List Char} {fault fault' : LexicalFault}
    (malformed : Malformed text fault) (malformed' : Malformed text fault') : fault = fault' := by
  obtain ⟨first, rest, rfl, fails⟩ := malformed.ofChars
  obtain ⟨first', rest', same, fails'⟩ := malformed'.ofChars
  obtain ⟨rfl, rfl⟩ := List.cons.inj same
  exact Except.error.inj (fails.symm.trans fails')

/-- Something malformed has at least one character. -/
theorem Malformed.ne_nil {text : List Char} {fault : LexicalFault}
    (malformed : Malformed text fault) : text ≠ [] := by
  obtain ⟨first, rest, rfl, -⟩ := malformed.ofChars
  exact List.cons_ne_nil first rest

/-- No token starts where nothing is left, or where something malformed is. -/
theorem Lexeme.not_leaves {fault? : Option LexicalFault} (lexed : Lexeme lexeme kind behind) :
    ¬Leaves (lexeme ++ behind) fault? := by
  cases fault? with
  | none =>
    obtain ⟨first, more, rfl, -⟩ := lexed.ofChars
    exact List.cons_ne_nil first (more ++ behind)
  | some fault => exact lexed.not_malformed

/-- Whether something malformed is left, and why it is, can be told in one way only. -/
theorem Leaves.unique {rest : List Char} {fault? fault?' : Option LexicalFault}
    (leaves : Leaves rest fault?) (leaves' : Leaves rest fault?') : fault? = fault?' := by
  cases fault? <;> cases fault?'
  case none.none => rfl
  case none.some => exact absurd leaves (Malformed.ne_nil leaves')
  case some.none => exact absurd leaves' (Malformed.ne_nil leaves)
  case some.some => rw [Malformed.unique leaves leaves']

/-- A text has parts down to its end, or to something malformed, in one way only. -/
theorem Decomposes.unique {text : List Char} {parts parts' : Decomposition}
    {fault? fault?' : Option LexicalFault} (decomposes : Decomposes text parts)
    (leaves : Leaves parts.rest fault?) (decomposes' : Decomposes text parts')
    (leaves' : Leaves parts'.rest fault?') : parts = parts' ∧ fault? = fault?' := by
  -- The induction is on the tokens of one of the two; what comes first is the same in both.
  induction decomposes generalizing parts' with
  | @ending gap rest separates =>
    generalize same : gap ++ rest = text at decomposes'
    cases decomposes' with
    | ending separates' =>
      obtain ⟨rfl, rfl⟩ := separates.unique leaves.not_startsGap separates'
        leaves'.not_startsGap same
      exact ⟨rfl, leaves.unique leaves'⟩
    | token separates' lexed' =>
      obtain ⟨rfl, rfl⟩ := separates.unique leaves.not_startsGap separates'
        lexed'.not_startsGap same
      exact absurd leaves lexed'.not_leaves
  | @token gap lexeme behind last rest kind pieces separates lexed _ ih =>
    generalize same : gap ++ (lexeme ++ behind) = text at decomposes'
    cases decomposes' with
    | ending separates' =>
      obtain ⟨rfl, rfl⟩ := separates.unique lexed.not_startsGap separates'
        leaves'.not_startsGap same
      exact absurd leaves' lexed.not_leaves
    | token separates' lexed' more' =>
      obtain ⟨rfl, tail⟩ := separates.unique lexed.not_startsGap separates'
        lexed'.not_startsGap same
      obtain ⟨rfl, rfl, rfl⟩ := lexed.unique lexed' tail
      obtain ⟨rest, rfl⟩ := ih leaves more' leaves'
      cases rest
      exact ⟨rfl, rfl⟩

end Uniqueness

/-- The place behind some characters. -/
def Position.past (position : Position) (text : List Char) : Position :=
  text.foldl Position.advance position

/-- Characters one behind another are passed one after another. -/
theorem Position.past_append (position : Position) (text more : List Char) :
    position.past (text ++ more) = (position.past text).past more := List.foldl_append

namespace Piece

/-- The token that a piece holds, when the piece starts at a place. -/
def token (position : Position) (piece : Piece) : Token :=
  let start := position.past piece.gap
  let size := (start.past piece.lexeme).offset - start.offset
  ⟨piece.kind, ⟨start.offset, size, start.location⟩⟩

/-- The tokens of pieces that stand one behind another from a place on. -/
def tokens (position : Position) : List Piece → List Token
  | [] => []
  | piece :: pieces => piece.token position :: tokens (position.past piece.text) pieces

/-- The tokens of pieces have the kinds of the pieces. -/
theorem map_kind_tokens (position : Position) (pieces : List Piece) :
    (tokens position pieces).map Token.kind = pieces.map Piece.kind := by
  induction pieces generalizing position with
  | nil => rfl
  | cons piece pieces ih => rw [tokens, List.map_cons, ih, List.map_cons, token]

end Piece

namespace Lexer

variable {position : Position} {gap lexeme behind rest : List Char} {kind : TokenKind}
  {fault : LexicalFault}

/-- Skipping the characters of a text leads behind it. -/
theorem skip_append (text : List Char) :
    skip text.length ⟨position, text ++ behind⟩ = ⟨position.past text, behind⟩ := by
  induction text generalizing position with
  | nil => rfl
  | cons c text ih => exact ih

/-- A gap is skipped as far as it goes. -/
theorem skipGap_eq (separates : Separates gap behind) (stops : ¬StartsGap behind) :
    skipGap ⟨position, gap ++ behind⟩ = ⟨position.past gap, behind⟩ := by
  rw [skipGap, separates.length_eq stops 0, Nat.zero_add, skip_append]

/-- The next token is the one behind the gap, and reading goes on behind it. -/
theorem next_token (separates : Separates gap (lexeme ++ behind))
    (lexed : Lexeme lexeme kind behind) :
    next ⟨position, gap ++ (lexeme ++ behind)⟩ =
      (.ok (some (Piece.token position ⟨gap, lexeme, kind⟩)),
        ⟨position.past (gap ++ lexeme), behind⟩) := by
  obtain ⟨first, more, rfl, reads⟩ := lexed.ofChars
  have start : skipGap ⟨position, _⟩ = _ := skipGap_eq separates lexed.not_startsGap
  have after : skip (first :: more).length ⟨position.past gap, first :: (more ++ behind)⟩ =
    ⟨(position.past gap).past (first :: more), behind⟩ := skip_append (first :: more)
  rw [List.cons_append] at start ⊢
  simp only [next, start, reads, after, Position.past_append, Piece.token]

/-- What is malformed behind the gap is reported at its start. -/
theorem next_malformed (separates : Separates gap rest) (malformed : Malformed rest fault) :
    (next ⟨position, gap ++ rest⟩).1 = .error ⟨(position.past gap).location, .lexical fault⟩ := by
  have start : skipGap ⟨position, _⟩ = _ := skipGap_eq separates malformed.not_startsGap
  obtain ⟨first, more, rfl, fails⟩ := malformed.ofChars
  simp only [next, start, fails]

/-- No token is left where only a gap is. -/
theorem next_nothing (separates : Separates gap []) : (next ⟨position, gap⟩).1 = .ok none := by
  have start : skipGap ⟨position, _⟩ = _ := skipGap_eq separates nofun
  rw [List.append_nil] at start
  simp only [next, start]

end Lexer

namespace Scan

variable {lexer after : Lexer} {token : Token} {fault : Fault} {found : Array Token}

/-- A token that is read is found, and the scan goes on behind it. -/
theorem ofLexer_token (read : lexer.next = (.ok (some token), after)) :
    ofLexer lexer found = ofLexer after (found.push token) := by
  rw [ofLexer]
  split <;> simp_all

/-- The scan ends where no token is left. -/
theorem ofLexer_nothing (read : lexer.next.1 = .ok none) :
    ofLexer lexer found = ⟨found.toList, none⟩ := by
  rw [ofLexer]
  split <;> simp_all

/-- The scan ends where a fault is. -/
theorem ofLexer_fault (read : lexer.next.1 = .error fault) :
    ofLexer lexer found = ⟨found.toList, some fault⟩ := by
  rw [ofLexer]
  split <;> simp_all

/-- A scan finds the tokens of the parts of a text, and the fault of what is left. -/
theorem ofLexer_eq {text : List Char} {parts : Decomposition} {fault? : Option LexicalFault}
    (decomposes : Decomposes text parts) (leaves : Leaves parts.rest fault?) (position : Position)
    (found : Array Token) :
    ofLexer ⟨position, text⟩ found = ⟨found.toList ++ Piece.tokens position parts.pieces,
      fault?.map fun fault => ⟨(position.past parts.read).location, .lexical fault⟩⟩ := by
  -- Each token is one turn of the scan, and what is left ends it.
  induction decomposes generalizing position found with
  | @ending gap rest separates =>
    cases fault? with
    | none =>
      have empty : rest = [] := leaves
      subst empty
      rw [List.append_nil, ofLexer_nothing (Lexer.next_nothing separates)]
      simp [Piece.tokens]
    | some fault =>
      rw [ofLexer_fault (Lexer.next_malformed separates leaves)]
      simp [Piece.tokens, Decomposition.read]
  | token separates lexed _ ih =>
    rw [ofLexer_token (Lexer.next_token separates lexed), ih leaves]
    simp [Piece.tokens, Piece.text, Decomposition.read, Position.past_append]

/-- A source is split into tokens of some kinds, and that down to its end, exactly when it is made
up of tokens of these kinds and of gaps. -/
theorem splits_iff (source : String) (kinds : List TokenKind) :
    (ofSource source).fault? = none ∧ (ofSource source).tokens.map Token.kind = kinds ↔
      ∃ parts : Decomposition, parts.Complete source.toList ∧ parts.kinds = kinds := by
  -- The scan follows every decomposition, and there always is one.
  have follows : ∀ {parts fault?}, Decomposes source.toList parts → Leaves parts.rest fault? →
      (ofSource source).tokens.map Token.kind = parts.kinds ∧
        (ofSource source).fault? = fault?.map fun fault =>
          ⟨(Position.start.past parts.read).location, .lexical fault⟩ := by
    intro parts fault? decomposes leaves
    have scanned : ofSource source = _ := ofLexer_eq decomposes leaves .start #[]
    rw [scanned, List.nil_append, Piece.map_kind_tokens]
    exact ⟨rfl, rfl⟩
  constructor
  · rintro ⟨sound, rfl⟩
    obtain ⟨parts, fault?, decomposes, leaves⟩ := exists_decomposition source.toList
    obtain ⟨kinds, ends⟩ := follows decomposes leaves
    obtain rfl : fault? = none := Option.map_eq_none_iff.mp (ends.symm.trans sound)
    exact ⟨parts, ⟨decomposes, leaves⟩, kinds.symm⟩
  · rintro ⟨parts, ⟨decomposes, leaves⟩, rfl⟩
    obtain ⟨kinds, ends⟩ := follows decomposes leaves
    exact ⟨ends, kinds⟩

end Scan

/-- The star that opens a comment does not close it, and digits may be zeros. -/
example : (Scan.ofSource "/*/ 1 */00/x").tokens.map Token.kind =
    [.integer 0, .symbol '/', .identifier "x"] := by
  cbv

end JackCompiler
