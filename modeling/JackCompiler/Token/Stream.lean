import JackCompiler.Token.Lexer

/-! Reading tokens one at a time, with a look at the next one before it is taken. -/

namespace JackCompiler

/-- A place between two tokens, with the next token kept once it has been looked at. -/
structure TokenStream where
  lexer : Lexer
  peeked : Option Token := none
  /-- The last token taken, after which the end of the source is reported. -/
  previous : Option Token := none

namespace TokenStream

/-- The stream of a whole source. -/
def ofSource (source : String) : TokenStream := { lexer := .ofSource source }

/-- The place reported for the end of the source. -/
def endLocation (stream : TokenStream) : Location :=
  (stream.previous.map Token.endLocation).getD .start

end TokenStream

/-- An action on a stream of tokens: a fault does not undo the reading before it. -/
abbrev TokenReader := ExceptT Fault (StateM TokenStream)

namespace TokenReader

/-- The fault that the source ends too early. -/
def unexpectedEnd {α : Type} : TokenReader α := do
  throw ⟨(← get).endLocation, .syntactic .unexpectedEnd⟩

/-- The fault that the token last looked at is not as described; nothing more is read to find it. -/
def mismatch {α : Type} (expected : String) : TokenReader α := do
  match (← get).peeked with
  | some token => throw ⟨token.location, .syntactic (.unexpected expected token.kind)⟩
  | none => unexpectedEnd

/-- The next token, which stays in place; nothing at the end of the source. -/
def peek : TokenReader (Option Token) := do
  let stream ← get
  match stream.peeked with
  | some token => return some token
  | none =>
    let (result, lexer) := stream.lexer.next
    -- The lexer moves past a malformed token too, so the next reading starts behind it.
    set { stream with lexer }
    match result with
    | .error fault => throw fault
    | .ok token? =>
      modify ({ · with peeked := token? })
      return token?

/-- Whether a token is left. -/
def hasMore : TokenReader Bool := return (← peek).isSome

/-- Takes the next token, whatever it is. -/
def next : TokenReader Token := do
  match ← peek with
  | some token =>
    modify ({ · with peeked := none, previous := some token })
    return token
  | none => unexpectedEnd

/-- What the next token is if it has the chosen form; it stays in place. -/
def peekAs? {α : Type} (choose : TokenKind → Option α) : TokenReader (Option α) :=
  return (← peek).bind fun token => choose token.kind

/-- Takes the next token, which must have the chosen form. -/
def consume {α : Type} (expected : String) (choose : TokenKind → Option α) :
    TokenReader (α × Token) := do
  match ← peek with
  | none => unexpectedEnd
  | some token =>
    match choose token.kind with
    | some value =>
      let token ← next
      return (value, token)
    | none => mismatch expected

/-- The next token's keyword, if it is one. -/
def peekKeyword : TokenReader (Option Keyword) := peekAs? TokenKind.keyword?

/-- The next token's character, if it is a symbol. -/
def peekSymbol : TokenReader (Option Char) := peekAs? TokenKind.symbol?

/-- Whether the next token is one of the keywords. -/
def isKeyword (keywords : List Keyword) : TokenReader Bool :=
  return (← peekKeyword).any keywords.contains

/-- Whether the next token is one of the symbols. -/
def isSymbol (symbols : List Char) : TokenReader Bool :=
  return (← peekSymbol).any symbols.contains

/-- Takes the next token if it is the symbol, and tells whether it was. -/
def matchSymbol (symbol : Char) : TokenReader Bool := do
  if ← isSymbol [symbol] then
    let _ ← next
    return true
  else return false

/-- The description of a choice between tokens. -/
def choiceText (texts : List String) : String :=
  " or ".intercalate (texts.map fun text => s!"'{text}'")

/-- Takes the next token, which must be one of the keywords. -/
def consumeKeyword (keywords : List Keyword) : TokenReader Keyword := do
  let (keyword, _) ← consume (choiceText (keywords.map Keyword.text)) fun kind =>
    kind.keyword?.filter keywords.contains
  return keyword

/-- Takes the next token, which must be one of the symbols. -/
def consumeSymbol (symbols : List Char) : TokenReader Char := do
  let (symbol, _) ← consume (choiceText (symbols.map Char.toString)) fun kind =>
    kind.symbol?.filter symbols.contains
  return symbol

/-- Takes the next token, which must be a name. -/
def consumeIdentifier : TokenReader (String × Token) := consume "identifier" TokenKind.identifier?

/-- Takes the next token, which must name a type, or be `void` where that is allowed. -/
def consumeType (allowVoid : Bool) : TokenReader String := do
  let (type, _) ← consume "type" fun kind =>
    kind.type? <|> if allowVoid && kind = .keyword .void then some kind.text else none
  return type

/-- The place of the next token, or the place reported for the end of the source. -/
def location : TokenReader Location := do
  match ← peek with
  | some token => return token.location
  | none => return (← get).endLocation

end TokenReader

end JackCompiler
