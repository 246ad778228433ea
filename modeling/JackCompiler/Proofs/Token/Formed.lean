import JackCompiler.Proofs.Token.Results

/-! What the tokens of a source are like, each by itself. -/

namespace JackCompiler

/-- The text is a word of letters, digits and underscores that starts with no digit, and it is not
reserved. -/
structure IsName (text : String) : Prop where
  word : ∃ first more, text.toList = first :: more ∧ startsWord first = true ∧
    ∀ c ∈ more, continuesWord c = true
  free : ∀ word : Keyword, word.text ≠ text

/-- A word that no keyword is spelled like is a name. -/
theorem isName_of_spelled {name : String} {first : Char} {more : List Char}
    (spelled : name.toList = first :: more)
    (word : (startsWord first && more.all continuesWord) = true)
    (free : Keyword.ofText? name = none) : IsName name := by
  obtain ⟨starts, inside⟩ := (Bool.and_eq_true _ _).mp word
  refine ⟨⟨first, more, spelled, starts, List.all_eq_true.mp inside⟩, ?_⟩
  -- A keyword with this spelling would be found.
  rintro word rfl
  rw [Keyword.ofText?_text] at free
  cases free

/-- A token of the kind can be written. -/
def TokenKind.Formed : TokenKind → Prop
  | .keyword _ | .symbol _ => True
  | .identifier name => IsName name
  | .integer value => value ≤ maxOperand
  | .string body => body.length ≤ maxOperand ∧ ∀ c ∈ body.toList, InString c

/-- What is written as a token can be written. -/
theorem Lexeme.formed {lexeme behind : List Char} {kind : TokenKind}
    (lexed : Lexeme lexeme kind behind) : kind.Formed := by
  cases lexed with
  | keyword | symbol => trivial
  | identifier starts inside _ free =>
    exact ⟨⟨_, _, String.toList_ofList, starts, inside⟩, free⟩
  | integer _ bounded => exact bounded
  | string _ inside bounded =>
    refine ⟨by rwa [String.length_ofList], ?_⟩
    rwa [String.toList_ofList]

/-- The tokens of the parts of a text can be written. -/
theorem Decomposes.formed {text : List Char} {parts : Decomposition}
    (decomposes : Decomposes text parts) : ∀ kind ∈ parts.kinds, kind.Formed := by
  induction decomposes with
  | ending => exact nofun
  | token _ lexed _ ih => exact List.forall_mem_cons.mpr ⟨lexed.formed, ih⟩

/-- The tokens of a source can be written. -/
theorem Scan.formed (source : String) :
    ∀ kind ∈ (ofSource source).tokens.map Token.kind, kind.Formed := by
  -- The scan finds the parts that the source has.
  obtain ⟨parts, fault?, decomposes, leaves⟩ := exists_decomposition source.toList
  have scanned : ofSource source = _ := ofLexer_eq decomposes leaves .start #[]
  rw [scanned, List.nil_append, Piece.map_kind_tokens]
  exact decomposes.formed

/-- A token can be written, however many calls were made before it is given. -/
theorem Lexer.formed_of_result {lexer : Lexer} {count : Nat} {token : Token}
    (given : lexer.result count = .ok (some token)) : token.kind.Formed := by
  obtain ⟨gap, lexeme, kind, behind, -, -, lexed, rfl, -⟩ := exists_lexeme_of_next given
  exact lexed.formed

end JackCompiler
