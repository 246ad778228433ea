import JackCompiler.Token.Keyword
import JackCompiler.Token.Position

/-! Tokens, and the text by which messages name them. -/

namespace JackCompiler

/-- What a token is, apart from where it stands. -/
inductive TokenKind where
  | keyword (word : Keyword)
  /-- The name of a class, a subroutine or a variable. -/
  | identifier (name : String)
  /-- Any single character that starts none of the other kinds. -/
  | symbol (c : Char)
  | integer (value : Nat)
  /-- The characters between the quotes of a string constant. -/
  | string (body : String)
deriving DecidableEq

namespace TokenKind

/-- A token as it would be written: strings keep their quotes, and integers lose leading zeros. -/
def text : TokenKind → String
  | .keyword word => word.text
  | .identifier name => name
  | .symbol c => c.toString
  | .integer value => toString value
  | .string body => "\"" ++ body ++ "\""

/-- The word of a keyword. -/
def keyword? : TokenKind → Option Keyword
  | .keyword word => some word
  | _ => none

/-- The character of a symbol. -/
def symbol? : TokenKind → Option Char
  | .symbol c => some c
  | _ => none

/-- The name that an identifier is. -/
def identifier? : TokenKind → Option String
  | .identifier name => some name
  | _ => none

/-- The type that a token names: a primitive type by its keyword, or a class by its name. -/
def type? : TokenKind → Option String
  | .keyword word => if word.isPrimitive then some word.text else none
  | .identifier name => some name
  | _ => none

/-- Only a name is read as a name. -/
theorem identifier?_eq_some_iff {kind : TokenKind} {name : String} :
    kind.identifier? = some name ↔ kind = .identifier name := by
  cases kind <;> simp [identifier?]

/-- Only a symbol is read as a symbol. -/
theorem symbol?_eq_some_iff {kind : TokenKind} {c : Char} :
    kind.symbol? = some c ↔ kind = .symbol c := by
  cases kind <;> simp [symbol?]

/-- Only a keyword is read as a keyword. -/
theorem keyword?_eq_some_iff {kind : TokenKind} {word : Keyword} :
    kind.keyword? = some word ↔ kind = .keyword word := by
  cases kind <;> simp [keyword?]

end TokenKind

/-- A token in its source. -/
structure Token where
  kind : TokenKind
  span : Span
deriving DecidableEq

namespace Token

/-- The place of a token's first character. -/
def location (token : Token) : Location := token.span.location

/-- The place reported as just past a token, whose column counts the bytes of the token. -/
def endLocation (token : Token) : Location :=
  ⟨token.location.line, token.location.column + token.span.size⟩

end Token

end JackCompiler
