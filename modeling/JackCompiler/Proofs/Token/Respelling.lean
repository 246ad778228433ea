import JackCompiler.Proofs.Token.Formed

/-! A source in which names are replaced by other names has the tokens that one expects. -/

namespace JackCompiler

/-- No name stands first. -/
def NoNameFirst (kinds : List TokenKind) : Prop := ∀ name, kinds.head? ≠ some (.identifier name)

/-- The second tokens are the first ones with other names in the places of some names. No name
stands right behind a number, whose digits it could go on. -/
inductive Respells : List TokenKind → List TokenKind → Prop where
  | nil : Respells [] []
  | same {kind : TokenKind} {kinds others : List TokenKind}
      (noNumber : ∀ value, kind ≠ .integer value) (rest : Respells kinds others) :
      Respells (kind :: kinds) (kind :: others)
  | integer {kinds others : List TokenKind} (value : Nat) (apart : NoNameFirst kinds)
      (rest : Respells kinds others) : Respells (.integer value :: kinds) (.integer value :: others)
  | name {kinds others : List TokenKind} (name : String) {other : String} (named : IsName other)
      (rest : Respells kinds others) : Respells (.identifier name :: kinds) (.identifier other :: others)

/-- Each token has one in its place, and the others have the others. -/
theorem Respells.cons_cases {kind : TokenKind} {kinds others : List TokenKind}
    (respells : Respells (kind :: kinds) others) :
    ∃ other rest, others = other :: rest ∧ Respells kinds rest := by
  cases respells with
  | same _ rest | integer _ _ rest | name _ _ rest => exact ⟨_, _, rfl, rest⟩

namespace Lexer

/-- The text from a place on, with tokens of the given kinds in the places of the next tokens. Where
a token keeps its kind it keeps its characters, and the gaps stay as they are. -/
def respelled : List TokenKind → Lexer → List Char
  | [], lexer => lexer.rest
  | kind :: kinds, lexer =>
    match lexer.next with
    | (.ok (some token), after) =>
      let start := lexer.skipGap.rest
      let gap := lexer.rest.take (lexer.rest.length - start.length)
      let lexeme := start.take (start.length - after.rest.length)
      gap ++ (if kind = token.kind then lexeme else kind.text.toList) ++ respelled kinds after
    | _ => lexer.rest

end Lexer

/-- A source with tokens of the given kinds in the places of its own. -/
def respell (source : String) (kinds : List TokenKind) : String :=
  String.ofList (Lexer.respelled kinds (.ofSource source))

/-- A gap in front of something that starts with no line break is one in front of anything. -/
theorem Separates.of_ends {gap behind : List Char} (separates : Separates gap behind)
    {c : Char} (first : behind.head? = some c) (goesOn : isLineBreak c = false)
    (other : List Char) : Separates gap other := by
  -- Only a line comment at its end depends on what stands behind the gap.
  induction separates with
  | nil => exact .nil other
  | blank blank _ ih => exact .blank blank (ih first)
  | @lineComment body gap behind inside ends _ ih =>
    refine .lineComment inside ?_ (ih first)
    cases gap with
    | nil => exact absurd (ends c first) (by simp [goesOn])
    | cons next gap => exact ends
  | blockComment inside _ ih => exact .blockComment inside (ih first)
  | openComment => cases first

/-- A gap in front of a token is one in front of anything. -/
theorem Lexeme.separates {gap lexeme behind : List Char} {kind : TokenKind}
    (lexed : Lexeme lexeme kind behind) (separates : Separates gap (lexeme ++ behind))
    (other : List Char) : Separates gap other := by
  obtain ⟨first, more, rfl, -⟩ := lexed.ofChars
  refine separates.of_ends rfl (Bool.eq_false_iff.mpr fun breaks => ?_) other
  exact lexed.not_startsGap (.blank (isBlank_of_isLineBreak breaks))

section Boundaries

variable {lexeme behind other : List Char} {kind : TokenKind}

/-- Where a token ends is decided by the character behind it. -/
theorem Lexeme.of_head (lexed : Lexeme lexeme kind behind) (same : behind.head? = other.head?) :
    Lexeme lexeme kind other := by
  cases lexed with
  | keyword word ends => exact .keyword word (same ▸ ends)
  | identifier starts inside ends free => exact .identifier starts inside (same ▸ ends) free
  | integer number bounded =>
    exact .integer ⟨number.nonempty, number.inside, same ▸ number.ends⟩ bounded
  | string _ inside bounded => exact .string other inside bounded
  | symbol quote digit word gap =>
    refine .symbol quote digit word fun starts => gap ?_
    cases starts with
    | blank blank => exact .blank blank
    | lineComment rest =>
      obtain ⟨rest, rfl⟩ := List.head?_eq_some_iff.mp same
      exact .lineComment rest
    | blockComment rest =>
      obtain ⟨rest, rfl⟩ := List.head?_eq_some_iff.mp same
      exact .blockComment rest

/-- A token in front of a word that is no number ends there whichever word it is. -/
theorem Lexeme.of_word (lexed : Lexeme lexeme kind behind)
    (noNumber : ∀ value, kind ≠ .integer value) (word : ∃ c ∈ behind.head?, startsWord c = true)
    (wordOther : ∃ c ∈ other.head?, startsWord c = true) : Lexeme lexeme kind other := by
  obtain ⟨c, first, starts⟩ := word
  obtain ⟨d, firstOther, startsOther⟩ := wordOther
  cases lexed with
  | keyword _ ends | identifier _ _ ends =>
    -- A word would go on with the letter behind it.
    have stops := ends c first
    simp [continuesWord, starts] at stops
  | integer => exact absurd rfl (noNumber _)
  | string _ inside bounded => exact .string other inside bounded
  | symbol quote digit word gap =>
    refine .symbol quote digit word fun comment => ?_
    cases comment with
    | blank blank => exact gap (.blank blank)
    | lineComment | blockComment =>
      obtain rfl := Option.some.inj firstOther
      exact absurd startsOther (by decide)

/-- A name is a token where no word goes on behind it. -/
theorem IsName.isLexeme {name : String} (named : IsName name)
    (ends : ∀ c ∈ behind.head?, continuesWord c = false) :
    Lexeme name.toList (.identifier name) behind := by
  obtain ⟨first, more, spelled, starts, inside⟩ := named.word
  obtain rfl : name = String.ofList (first :: more) := by rw [← spelled, String.ofList_toList]
  rw [spelled]
  exact .identifier starts inside ends named.free

/-- A name is written as its characters, of which the first one starts a word. -/
theorem IsName.starts {name : String} (named : IsName name) (behind : List Char) :
    ∃ c ∈ (name.toList ++ behind).head?, startsWord c = true := by
  obtain ⟨first, more, spelled, starts, -⟩ := named.word
  exact ⟨first, by rw [spelled]; rfl, starts⟩

/-- What stands for a name is its characters, behind which no word goes on. -/
theorem Lexeme.identifier_cases {name : String} (lexed : Lexeme lexeme (.identifier name) behind) :
    lexeme = name.toList ∧ ∀ c ∈ behind.head?, continuesWord c = false := by
  generalize named : TokenKind.identifier name = kind at lexed
  cases lexed with
  | identifier starts _ ends =>
    obtain rfl := TokenKind.identifier.inj named
    exact ⟨String.toList_ofList.symm, ends⟩
  | _ => cases named

end Boundaries

/-- Two texts start with the same character, or both start with a word, of which the first one is a
name. -/
def StartsAlike (kinds : List TokenKind) (text other : List Char) : Prop :=
  text.head? = other.head? ∨ ¬NoNameFirst kinds ∧ (∃ c ∈ text.head?, startsWord c = true) ∧
    ∃ c ∈ other.head?, startsWord c = true

/-- Texts with the same gap in front of them start alike if they do so without the gap. -/
theorem StartsAlike.append {kinds : List TokenKind} {text other : List Char}
    (alike : StartsAlike kinds text other) (gap : List Char) :
    StartsAlike kinds (gap ++ text) (gap ++ other) := by
  cases gap with
  | nil => exact alike
  | cons c gap => exact .inl rfl

/-- A token that takes the place of another one is there what it should be, and starts like the
other one, if what stands behind both starts alike. -/
theorem Lexeme.respelled {lexeme spelled behind after : List Char} {kind other : TokenKind}
    {kinds others : List TokenKind} (lexed : Lexeme lexeme kind behind)
    (respells : Respells (kind :: kinds) (other :: others)) (alike : StartsAlike kinds behind after)
    (chosen : spelled = if other = kind then lexeme else other.text.toList) :
    Lexeme spelled other after ∧
      StartsAlike (kind :: kinds) (lexeme ++ behind) (spelled ++ after) := by
  have unchanged : StartsAlike (kind :: kinds) (lexeme ++ behind) (lexeme ++ after) := by
    obtain ⟨first, more, rfl, -⟩ := lexed.ofChars
    exact .inl rfl
  cases respells with
  | same noNumber =>
    obtain rfl : spelled = lexeme := by rw [chosen, if_pos rfl]
    refine ⟨?_, unchanged⟩
    rcases alike with same | ⟨-, word, wordOther⟩
    · exact lexed.of_head same
    · exact lexed.of_word noNumber word wordOther
  | integer value apart =>
    obtain rfl : spelled = lexeme := by rw [chosen, if_pos rfl]
    -- No name stands behind the number, so the same character does as before.
    exact ⟨lexed.of_head (alike.resolve_right fun word => word.1 apart), unchanged⟩
  | @name _ _ name other named =>
    have formed : IsName name := lexed.formed
    obtain ⟨rfl, ends⟩ := lexed.identifier_cases
    obtain rfl : spelled = other.toList := by
      rw [chosen]
      split
      · rename_i same
        rw [TokenKind.identifier.inj same]
      · rfl
    refine ⟨named.isLexeme ?_, .inr ⟨fun none => none name rfl, formed.starts _, named.starts _⟩⟩
    -- No word stands behind a name, since the name would go on with it.
    rcases alike with same | ⟨-, ⟨c, first, starts⟩, -⟩
    · exact same ▸ ends
    · have stops := ends c first
      simp [continuesWord, starts] at stops

/-- The first token is replaced behind its gap, and the others behind it. -/
theorem Lexer.respelled_cons {position : Position} {gap lexeme behind : List Char}
    {kind : TokenKind} (separates : Separates gap (lexeme ++ behind))
    (lexed : Lexeme lexeme kind behind) (other : TokenKind) (others : List TokenKind) :
    respelled (other :: others) ⟨position, gap ++ (lexeme ++ behind)⟩ =
      gap ++ ((if other = kind then lexeme else other.text.toList) ++
        respelled others ⟨position.past (gap ++ lexeme), behind⟩) := by
  have start : skipGap ⟨position, _⟩ = _ := skipGap_eq separates lexed.not_startsGap
  rw [respelled, next_token separates lexed, start]
  simp [Piece.token]

/-- A text in which names are replaced by others is made up of the tokens that are expected, and
starts like the text that it is made from. -/
theorem Decomposes.respelled {text : List Char} {parts : Decomposition}
    (decomposes : Decomposes text parts) (whole : parts.rest = []) {others : List TokenKind}
    (respells : Respells parts.kinds others) (position : Position) :
    ∃ after : Decomposition, after.Complete (Lexer.respelled others ⟨position, text⟩) ∧
      after.kinds = others ∧
      StartsAlike parts.kinds text (Lexer.respelled others ⟨position, text⟩) := by
  induction decomposes generalizing others position with
  | ending separates =>
    cases respells with
    | nil => exact ⟨_, ⟨.ending separates, whole⟩, rfl, .inl rfl⟩
  | @token gap lexeme behind last rest kind pieces separates lexed more ih =>
    change Respells (kind :: pieces.map Piece.kind) others at respells
    -- What stands behind the token is replaced first, and decides where the token ends.
    obtain ⟨other, others, rfl, respellsRest⟩ := respells.cons_cases
    obtain ⟨⟨pieces', last', rest'⟩, ⟨decomposes, leaves⟩, same, alike⟩ :=
      ih whole respellsRest (position.past (gap ++ lexeme))
    obtain ⟨lexedOther, starts⟩ := lexed.respelled respells alike rfl
    rw [Lexer.respelled_cons separates lexed]
    exact ⟨_, ⟨.token (lexed.separates separates _) lexedOther decomposes, leaves⟩,
      congrArg (other :: ·) same, starts.append gap⟩

/-- A source in which names are replaced by others is split into the tokens that are expected. -/
theorem splits_respell {source : String} {kinds others : List TokenKind}
    (sound : (Scan.ofSource source).fault? = none)
    (tokens : (Scan.ofSource source).tokens.map Token.kind = kinds)
    (respells : Respells kinds others) :
    (Scan.ofSource (respell source others)).fault? = none ∧
      (Scan.ofSource (respell source others)).tokens.map Token.kind = others := by
  obtain ⟨parts, ⟨decomposes, whole⟩, rfl⟩ := (Scan.splits_iff source kinds).mp ⟨sound, tokens⟩
  obtain ⟨after, complete, same, -⟩ := decomposes.respelled whole respells .start
  refine (Scan.splits_iff _ others).mpr ⟨after, ?_, same⟩
  rw [respell, String.toList_ofList]
  exact complete

/-- Only the name changes, while the gaps stay, and so do the zeros of a number. -/
example : respell "x=00/*x*/;" [.identifier "other", .symbol '=', .integer 0, .symbol ';'] =
    "other=00/*x*/;" := by
  cbv

end JackCompiler
