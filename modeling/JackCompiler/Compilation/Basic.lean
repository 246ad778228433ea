import JackCompiler.Token.Lexer
import JackCompiler.Compilation.Weight

/-!
Compiling the tokens of a class into machine commands, one small step at a time.

A compilation is a list of tokens, a list of parts that are still to come, and what is known of the
class. The first part and the next token decide each step, so nothing read is ever taken back.
-/

namespace JackCompiler

/-- A compilation that is under way. -/
structure Compilation where
  tokens : List Token
  pending : List Pending
  unit : ClassUnit

namespace Compilation

/-- Nothing has been read of a class. -/
def start (tokens : List Token) : Compilation :=
  { tokens
    pending := [.keyword .«class», .className, .symbol '{', .classVariables]
    unit := {} }

/-- Whether the next step depends on the next token, which has to be well formed then. -/
def looks (compilation : Compilation) : Bool :=
  match compilation.pending with
  | .emit _ :: _ => false
  | _ => true

/-- What one step comes to. -/
inductive Step where
  /-- Goes on, when the step has taken the given token and emitted the given code. -/
  | go (taken? : Option Token) (code : List Command) (next : Compilation)
  /-- The class is complete, and nothing stands after it. -/
  | done
  | fail (fault : Fault)

/-- A part makes way for the parts it brings. -/
def replace (tokens : List Token) (rest : List Pending) (taken? : Option Token) (move : Move) :
    Step :=
  .go taken? move.code ⟨tokens, move.pending ++ rest, move.unit⟩

/-- The next step, in a source that ends as given after the tokens. -/
def step (ending : Except Fault Location) (compilation : Compilation) : Step :=
  match compilation with
  -- Code that is due does not wait for the next token.
  | ⟨tokens, .emit code :: rest, unit⟩ => .go none code ⟨tokens, rest, unit⟩
  | ⟨token :: tokens, part :: rest, unit⟩ =>
    match part.take? unit token with
    | some (.ok move) => replace tokens rest (some token) move
    | some (.error fault) => .fail fault
    | none =>
      match part.leave unit with
      | .go move => replace (token :: tokens) rest none move
      | .refuse expected => .fail ⟨token.location, .syntactic (.unexpected expected token.kind)⟩
      | .fail fault => .fail fault
  | ⟨[], part :: rest, unit⟩ =>
    match ending with
    -- The token that would be looked at is malformed.
    | .error fault => .fail fault
    | .ok location =>
      match part.leave unit with
      | .go move => replace [] rest none move
      | .refuse _ => .fail ⟨location, .syntactic .unexpectedEnd⟩
      | .fail fault => .fail fault
  | ⟨token :: _, [], _⟩ =>
    .fail ⟨token.location, .syntactic (.unexpected "end of file after class body" token.kind)⟩
  | ⟨[], [], _⟩ =>
    match ending with
    | .error fault => .fail fault
    | .ok _ => .done

/-- A bound on the number of steps that are left. -/
def potential (compilation : Compilation) : Nat :=
  Pending.tokenWeight * compilation.tokens.length + Pending.totalWeight compilation.pending

/-- A part that takes no token makes way for lighter parts. -/
theorem potential_leave {tokens : List Token} {part : Pending} {rest : List Pending}
    {unit : ClassUnit} {move : Move} (left : part.leave unit = .go move) :
    potential ⟨tokens, move.pending ++ rest, move.unit⟩ <
      potential ⟨tokens, part :: rest, unit⟩ := by
  have := Pending.totalWeight_leave left
  simp only [potential, Pending.totalWeight_append, Pending.totalWeight_cons]
  omega

/-- A token that is taken outweighs the parts it brings. -/
theorem potential_take {token : Token} {tokens : List Token} {part : Pending}
    {rest : List Pending} {unit : ClassUnit} {move : Move}
    (taken : part.take? unit token = some (.ok move)) :
    potential ⟨tokens, move.pending ++ rest, move.unit⟩ <
      potential ⟨token :: tokens, part :: rest, unit⟩ := by
  have := Pending.totalWeight_take taken
  simp only [potential, List.length_cons, Nat.mul_succ, Pending.totalWeight_append,
    Pending.totalWeight_cons]
  omega

/-- Every step leaves fewer steps to go. -/
theorem potential_step {ending : Except Fault Location} {compilation next : Compilation}
    {taken? : Option Token} {code : List Command}
    (went : compilation.step ending = .go taken? code next) :
    next.potential < compilation.potential := by
  -- The step depends on the first part, and then on the next token or on the end of the source.
  unfold step at went
  split at went
  · cases went
    simp [potential, Pending.weight]
  · split at went
    · cases went
      exact potential_take ‹_›
    · cases went
    · split at went <;> cases went
      exact potential_leave ‹_›
  · split at went
    · cases went
    · split at went <;> cases went
      exact potential_leave ‹_›
  · cases went
  · split at went <;> cases went

/-- The code of a compilation from some point on, after the code emitted before it. -/
def run (ending : Except Fault Location) (compilation : Compilation) (code : Array Command) :
    Except Fault (List Command) :=
  match _ : compilation.step ending with
  | .go _ emitted next => run ending next (code ++ emitted)
  | .done => .ok code.toList
  | .fail fault => .error fault
termination_by compilation.potential
decreasing_by exact potential_step ‹_›

end Compilation

end JackCompiler
