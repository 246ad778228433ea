import JackCompiler.Proofs.Token.Results
import JackCompiler.Token.Stream

/-! Calls on a stream of tokens, and a cursor that answers them from the results of reading. -/

namespace JackCompiler

/-- A call on a stream of tokens. -/
inductive StreamCall where
  | peek
  | hasMore
  | next
  | peekKeyword
  | peekSymbol
  | isKeyword (keywords : List Keyword)
  | isSymbol (symbols : List Char)
  | matchSymbol (symbol : Char)
  | consumeKeyword (keywords : List Keyword)
  | consumeSymbol (symbols : List Char)
  | consumeIdentifier
  | consumeType (allowVoid : Bool)
  | location
  | mismatch (expected : String)

/-- What a call on a stream of tokens can answer. -/
inductive StreamAnswer where
  | token? (token? : Option Token)
  | token (token : Token)
  | flag (holds : Bool)
  | keyword? (keyword? : Option Keyword)
  | symbol? (symbol? : Option Char)
  | keyword (keyword : Keyword)
  | symbol (symbol : Char)
  | name (name : String) (token : Token)
  | type (type : String)
  | location (location : Location)

/-- The action of a call on a stream of tokens. -/
def StreamCall.reader : StreamCall → TokenReader StreamAnswer
  | .peek => .token? <$> TokenReader.peek
  | .hasMore => .flag <$> TokenReader.hasMore
  | .next => .token <$> TokenReader.next
  | .peekKeyword => .keyword? <$> TokenReader.peekKeyword
  | .peekSymbol => .symbol? <$> TokenReader.peekSymbol
  | .isKeyword keywords => .flag <$> TokenReader.isKeyword keywords
  | .isSymbol symbols => .flag <$> TokenReader.isSymbol symbols
  | .matchSymbol symbol => .flag <$> TokenReader.matchSymbol symbol
  | .consumeKeyword keywords => .keyword <$> TokenReader.consumeKeyword keywords
  | .consumeSymbol symbols => .symbol <$> TokenReader.consumeSymbol symbols
  | .consumeIdentifier => (fun (name, token) => .name name token) <$> TokenReader.consumeIdentifier
  | .consumeType allowVoid => .type <$> TokenReader.consumeType allowVoid
  | .location => .location <$> TokenReader.location
  | .mismatch expected => TokenReader.mismatch expected

/-- Every call looks at the next token, except the one that reports a mismatch. -/
def StreamCall.looks : StreamCall → Bool
  | .mismatch _ => false
  | _ => true

/-- Whether a call with the given answer takes the token at the cursor: asking for the next token
and requiring one do unless they fail, and trying a symbol does if it is there. -/
def StreamCall.takes : StreamCall → Except Fault StreamAnswer → Bool
  | .next, answer | .consumeKeyword _, answer | .consumeSymbol _, answer
  | .consumeIdentifier, answer | .consumeType _, answer => answer.isOk
  | .matchSymbol _, answer => (answer matches .ok (.flag true))
  | _, _ => false

namespace TokenStream

/-- The answer of a stream to a call. -/
def answer (stream : TokenStream) (call : StreamCall) : Except Fault StreamAnswer :=
  (call.reader.run stream).1

/-- The stream after a call. -/
def after (stream : TokenStream) (call : StreamCall) : TokenStream := (call.reader.run stream).2

/-- The result of reading that a call moves past: the token that it takes, or what is malformed. -/
def passed (stream : TokenStream) (call : StreamCall) : List (Except Fault (Option Token)) :=
  match stream.answer call with
  | .error ⟨place, .lexical fault⟩ => [.error ⟨place, .lexical fault⟩]
  | answer => if call.takes answer then [.ok (stream.after call).previous] else []

/-- The stream after some calls, one after the other. -/
def afterAll (stream : TokenStream) (calls : List StreamCall) : TokenStream :=
  calls.foldl after stream

/-- The answers of a stream to some calls, one after the other. -/
def answers (stream : TokenStream) : List StreamCall → List (Except Fault StreamAnswer)
  | [] => []
  | call :: rest => stream.answer call :: (stream.after call).answers rest

/-- The results of reading that some calls move past, one after the other. -/
def passedAll (stream : TokenStream) : List StreamCall → List (Except Fault (Option Token))
  | [] => []
  | call :: rest => stream.passed call ++ (stream.after call).passedAll rest

end TokenStream

/-- A place among the results of reading a source: tokens, faults, and nothing at the end. -/
structure Cursor where
  position : Nat := 0
  /-- Whether the result at the position is a token that has been looked at. -/
  looked : Bool := false
  /-- The token that was taken last. -/
  previous : Option Token := none

namespace Cursor

/-- The place that is reported for the end of the source. -/
def ending (cursor : Cursor) : Location := (cursor.previous.map Token.endLocation).getD .start

/-- The fault that something else stands here than what is expected. -/
def refusal (cursor : Cursor) (expected : String) : Option Token → Fault
  | some token => ⟨token.location, .syntactic (.unexpected expected token.kind)⟩
  | none => ⟨cursor.ending, .syntactic .unexpectedEnd⟩

/-- What is accepted of the token that stands here, or else the fault that it is not as expected. -/
def required (cursor : Cursor) (expected : String) (found : Option Token)
    (accept : Token → Option StreamAnswer) : Except Fault StreamAnswer :=
  match found.bind accept with
  | some answer => .ok answer
  | none => .error (cursor.refusal expected found)

end Cursor

namespace StreamCall

/-- The answer of a call that requires a token of some form, where one of that form stands. -/
def accept : StreamCall → Token → Option StreamAnswer
  | .consumeKeyword keywords, token =>
    match token.kind with
    | .keyword word => if word ∈ keywords then some (.keyword word) else none
    | _ => none
  | .consumeSymbol symbols, token =>
    match token.kind with
    | .symbol c => if c ∈ symbols then some (.symbol c) else none
    | _ => none
  | .consumeIdentifier, token =>
    match token.kind with
    | .identifier name => some (.name name token)
    | _ => none
  | .consumeType allowVoid, token =>
    match token.kind with
    | .keyword word =>
      if word.isPrimitive ∨ allowVoid ∧ word = .void then some (.type word.text) else none
    | .identifier name => some (.type name)
    | _ => none
  | _, _ => none

/-- The answer of a call when the given token stands at the cursor, or when nothing does. -/
def answer (cursor : Cursor) (found : Option Token) (call : StreamCall) :
    Except Fault StreamAnswer :=
  match call with
  | .peek => .ok (.token? found)
  | .hasMore => .ok (.flag found.isSome)
  | .next =>
    match found with
    | some token => .ok (.token token)
    | none => .error ⟨cursor.ending, .syntactic .unexpectedEnd⟩
  | .peekKeyword => .ok (.keyword? (found.bind fun token => token.kind.keyword?))
  | .peekSymbol => .ok (.symbol? (found.bind fun token => token.kind.symbol?))
  | .isKeyword keywords =>
    .ok (.flag (keywords.any fun word => found.any (·.kind = .keyword word)))
  | .isSymbol symbols => .ok (.flag (symbols.any fun c => found.any (·.kind = .symbol c)))
  | .matchSymbol symbol => .ok (.flag (found.any (·.kind = .symbol symbol)))
  | .consumeKeyword keywords =>
    cursor.required (TokenReader.choiceText (keywords.map Keyword.text)) found call.accept
  | .consumeSymbol symbols =>
    cursor.required (TokenReader.choiceText (symbols.map Char.toString)) found call.accept
  | .consumeIdentifier => cursor.required "identifier" found call.accept
  | .consumeType _ => cursor.required "type" found call.accept
  | .location => .ok (.location ((found.map Token.location).getD cursor.ending))
  | .mismatch expected => .error (cursor.refusal expected found)

end StreamCall

namespace Cursor

/-- The answer of a call, and the cursor after it. -/
def step (results : Nat → Except Fault (Option Token)) (cursor : Cursor) (call : StreamCall) :
    Except Fault StreamAnswer × Cursor :=
  if call.looks then
    match results cursor.position with
    -- A fault is reported once, by the call that meets it.
    | .error fault => (.error fault, ⟨cursor.position + 1, false, cursor.previous⟩)
    | .ok found =>
      let answer := call.answer cursor found
      (answer, if call.takes answer then ⟨cursor.position + 1, false, found⟩
        else ⟨cursor.position, found.isSome, cursor.previous⟩)
  else
    -- Without a look, only a token that has been looked at before is known.
    let known := if cursor.looked then (results cursor.position).toOption.join else none
    (call.answer cursor known, cursor)

/-- The answers to some calls, one after the other. -/
def answers (results : Nat → Except Fault (Option Token)) (cursor : Cursor) :
    List StreamCall → List (Except Fault StreamAnswer)
  | [] => []
  | call :: rest => (cursor.step results call).1 :: answers results (cursor.step results call).2 rest

end Cursor

section Faults

variable {cursor : Cursor} {found : Option Token} {fault : Fault}

/-- What stands where something else is expected is wrong in its syntax. -/
theorem Cursor.cause_refusal (cursor : Cursor) (expected : String) (found : Option Token) :
    ∃ cause, (cursor.refusal expected found).cause = .syntactic cause := by
  cases found with
  | none => exact ⟨_, rfl⟩
  | some token => exact ⟨_, rfl⟩

/-- A token that is required is refused for a syntactic cause. -/
theorem Cursor.cause_of_required {expected : String} {accept : Token → Option StreamAnswer}
    (refused : cursor.required expected found accept = .error fault) :
    ∃ cause, fault.cause = .syntactic cause := by
  rw [required] at refused
  split at refused
  · cases refused
  · cases refused
    exact cursor.cause_refusal expected found

/-- A call that finds something else than it requires fails for a syntactic cause. -/
theorem StreamCall.cause_of_answer {call : StreamCall} (refused : call.answer cursor found = .error fault) :
    ∃ cause, fault.cause = .syntactic cause := by
  cases call with
  | next =>
    cases found with
    | none =>
      cases refused
      exact ⟨_, rfl⟩
    | some token => cases refused
  | consumeKeyword | consumeSymbol | consumeIdentifier | consumeType =>
    exact Cursor.cause_of_required refused
  | mismatch expected =>
    cases refused
    exact cursor.cause_refusal expected found
  | _ => cases refused

end Faults

namespace StreamCall

/-- What requires a keyword accepts one of the given keywords. -/
theorem accept_consumeKeyword (keywords : List Keyword) :
    (consumeKeyword keywords).accept = fun token =>
      (token.kind.keyword?.filter keywords.contains).map .keyword := by
  funext token
  rw [accept]
  cases token.kind with
  | keyword word => simp [TokenKind.keyword?, Option.filter]
  | _ => rfl

/-- What requires a symbol accepts one of the given symbols. -/
theorem accept_consumeSymbol (symbols : List Char) :
    (consumeSymbol symbols).accept = fun token =>
      (token.kind.symbol?.filter symbols.contains).map .symbol := by
  funext token
  rw [accept]
  cases token.kind with
  | symbol c => simp [TokenKind.symbol?, Option.filter]
  | _ => rfl

/-- What requires a name accepts any name. -/
theorem accept_consumeIdentifier :
    consumeIdentifier.accept = fun token => token.kind.identifier?.map (.name · token) := by
  funext token
  rw [accept]
  cases token.kind with
  | _ => rfl

/-- What requires a type accepts the type that a token names, or `void` where it may stand. -/
theorem accept_consumeType (allowVoid : Bool) :
    (consumeType allowVoid).accept = fun token => (token.kind.type? <|>
      if allowVoid && token.kind = .keyword .void then some token.kind.text else none).map .type := by
  funext token
  rw [accept]
  cases token.kind with
  | keyword word =>
    -- A word that is no primitive type can only be the one for no value.
    cases primitive : word.isPrimitive with
    | true => simp [TokenKind.type?, primitive]
    | false => simp [TokenKind.type?, primitive, TokenKind.text]
  | identifier name => rfl
  | _ => simp [TokenKind.type?]

/-- A fault takes no token. -/
theorem takes_error (call : StreamCall) (fault : Fault) : call.takes (.error fault) = false := by
  cases call with
  | _ => rfl

/-- Where nothing stands, nothing is taken. -/
theorem takes_answer_none (call : StreamCall) (cursor : Cursor) :
    call.takes (call.answer cursor none) = false := by
  cases call with
  | _ => rfl

end StreamCall

namespace Cursor

/-- A step reports what is malformed at the cursor and moves past it, takes the token there and
moves past it, or leaves the cursor in place. -/
theorem step_cases (results : Nat → Except Fault (Option Token)) (cursor : Cursor)
    (call : StreamCall) :
    (∃ fault, results cursor.position = .error fault ∧
      cursor.step results call = (.error fault, ⟨cursor.position + 1, false, cursor.previous⟩)) ∨
    (∃ token, results cursor.position = .ok (some token) ∧
      call.takes (call.answer cursor (some token)) = true ∧ cursor.step results call =
        (call.answer cursor (some token), ⟨cursor.position + 1, false, some token⟩)) ∨
    ∃ known looked, call.takes (call.answer cursor known) = false ∧ cursor.step results call =
      (call.answer cursor known, ⟨cursor.position, looked, cursor.previous⟩) := by
  -- What a look finds decides, and at the end of the source there is nothing to take.
  by_cases looks : call.looks = true
  · simp only [step, if_pos looks]
    cases results cursor.position with
    | error fault => exact .inl ⟨fault, rfl, rfl⟩
    | ok found =>
      by_cases takes : call.takes (call.answer cursor found) = true
      · simp only [if_pos takes]
        cases found with
        | none =>
          rw [StreamCall.takes_answer_none] at takes
          cases takes
        | some token => exact .inr (.inl ⟨token, rfl, takes, rfl⟩)
      · simp only [if_neg takes]
        exact .inr (.inr ⟨found, found.isSome, eq_false_of_ne_true takes, rfl⟩)
  · -- Only the report of a mismatch does without a look, and it takes nothing.
    cases call with
    | mismatch expected => exact .inr (.inr ⟨_, cursor.looked, rfl, rfl⟩)
    | _ => exact absurd rfl looks

/-- A call that looks at the next token answers the same wherever the cursor has been since, as long
as it is in place and the same token was taken last. -/
theorem answer_step_eq (results : Nat → Except Fault (Option Token)) {call : StreamCall}
    (looks : call.looks = true) (cursor : Cursor) (looked : Bool) :
    (step results ⟨cursor.position, looked, cursor.previous⟩ call).1 =
      (cursor.step results call).1 := by
  -- A look finds the same again, and nothing else of the cursor tells except the last token.
  simp only [step, if_pos looks]
  cases results cursor.position with
  | error fault => rfl
  | ok found =>
    cases call with
    | _ => rfl

end Cursor

end JackCompiler
