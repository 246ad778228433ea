import JackCompiler.Fault

/-! Splitting a source into tokens. -/

namespace JackCompiler

/-- What the characters between two tokens belong to. -/
inductive Gap where
  | blank
  /-- A comment up to the end of its line. -/
  | lineComment
  /-- A comment up to the first closing mark, however many lines it takes. -/
  | blockComment
deriving DecidableEq

/-- How many characters stand before the next token, when some have been counted already. -/
def Gap.length (counted : Nat) : Gap → List Char → Nat
  | .blank, '/' :: '/' :: rest => lineComment.length (counted + 2) rest
  -- The star of the opening mark is not the star of a closing one.
  | .blank, '/' :: '*' :: rest => blockComment.length (counted + 2) rest
  | .blank, c :: rest => if isBlank c then blank.length (counted + 1) rest else counted
  | .lineComment, c :: rest =>
    -- The line break that ends a comment is itself blank.
    (if isLineBreak c then blank else lineComment).length (counted + 1) rest
  | .blockComment, '*' :: '/' :: rest => blank.length (counted + 2) rest
  | .blockComment, _ :: rest => blockComment.length (counted + 1) rest
  | _, [] => counted

/-- A place in a source, with the text from there on. -/
structure Lexer where
  position : Position
  rest : List Char

namespace Lexer

/-- The start of a source. -/
def ofSource (source : String) : Lexer := ⟨.start, source.toList⟩

/-- The place after some more characters, or the end of the source if there are fewer. -/
def skip : Nat → Lexer → Lexer
  | count + 1, ⟨position, c :: rest⟩ => skip count ⟨position.advance c, rest⟩
  | _, lexer => lexer

/-- The start of the next token, past blanks and comments. -/
def skipGap (lexer : Lexer) : Lexer := lexer.skip (Gap.blank.length 0 lexer.rest)

/-- The next token, if one is left, and the place where reading goes on, also after a fault. -/
def next (lexer : Lexer) : Except Fault (Option Token) × Lexer :=
  let start := lexer.skipGap
  match start.rest with
  | [] => (.ok none, start)
  | first :: rest =>
    let reading := Reading.ofChars first rest
    let after := start.skip reading.length
    match reading.result with
    | .error fault => (.error ⟨start.position.location, .lexical fault⟩, after)
    | .ok kind =>
      let size := after.position.offset - start.position.offset
      (.ok (some ⟨kind, ⟨start.position.offset, size, start.position.location⟩⟩), after)

/-- Skipping characters drops them from the text that is left. -/
theorem rest_skip (count : Nat) (lexer : Lexer) :
    (lexer.skip count).rest = lexer.rest.drop count := by
  induction count generalizing lexer with
  | zero => cases lexer; rfl
  | succ count ih =>
    -- Only a text with a first character has anything to skip.
    obtain ⟨position, _ | ⟨c, rest⟩⟩ := lexer
    · rfl
    · exact ih ⟨position.advance c, rest⟩

/-- Each token takes at least one character off the text that is left. -/
theorem length_next_lt {lexer after : Lexer} {token : Token}
    (read : lexer.next = (.ok (some token), after)) : after.rest.length < lexer.rest.length := by
  -- The gap before the token takes nothing back, and the token is not empty.
  have gap : lexer.skipGap.rest.length ≤ lexer.rest.length := by
    simp [skipGap, rest_skip]
  simp only [next] at read
  split at read
  · simp at read
  · rename_i first rest start
    split at read
    · simp at read
    · rename_i kind result
      have positive := Reading.length_pos result
      obtain ⟨-, rfl⟩ := Prod.mk.inj read
      rw [rest_skip, start, List.length_drop]
      rw [start] at gap
      simp only [List.length_cons] at gap ⊢
      omega

end Lexer

/-- A source split into tokens, up to its end or to its first malformed token. -/
structure Scan where
  tokens : List Token
  fault? : Option Fault

namespace Scan

/-- The tokens from a place on, after those found before it. -/
def ofLexer (lexer : Lexer) (found : Array Token) : Scan :=
  match _ : lexer.next with
  | (.ok (some token), after) => ofLexer after (found.push token)
  | (.ok none, _) => ⟨found.toList, none⟩
  | (.error fault, _) => ⟨found.toList, some fault⟩
termination_by lexer.rest.length
decreasing_by exact Lexer.length_next_lt ‹_›

/-- All tokens of a source before its first malformed one. -/
def ofSource (source : String) : Scan := ofLexer (.ofSource source) #[]

/-- What follows the last token: a fault, or the end of the source and the place reported for it. -/
def ending (scan : Scan) : Except Fault Location :=
  match scan.fault? with
  | some fault => .error fault
  | none => .ok ((scan.tokens.getLast?.map Token.endLocation).getD .start)

end Scan

end JackCompiler
