import JackCompiler.Proofs.Token.Cursor

/-! A stream that looks one token ahead follows a cursor on the results of reading its source. -/

namespace JackCompiler

namespace TokenReader

variable {α β : Type} {stream after : TokenStream} {token : Token} {found : Option Token}

/-- A second action is taken where the first one leads, unless that fails. -/
theorem run_bind (reader : TokenReader α) (next : α → TokenReader β) (stream : TokenStream) :
    (reader >>= next).run stream = match reader.run stream with
      | (.ok value, after) => (next value).run after
      | (.error fault, after) => (.error fault, after) := by
  show (match reader.run stream with | (result, after) => ExceptT.bindCont next result after) = _
  rcases reader.run stream with ⟨_ | _, after⟩
  · rfl
  · rfl

/-- A function of what an action gives changes nothing else. -/
theorem run_map (f : α → β) (reader : TokenReader α) (stream : TokenStream) :
    (f <$> reader).run stream = match reader.run stream with
      | (.ok value, after) => (.ok (f value), after)
      | (.error fault, after) => (.error fault, after) := by
  rw [← bind_pure_comp, run_bind]
  rfl

/-- A token that has been looked at is looked at again. -/
theorem run_peek_some (lexer : Lexer) (token : Token) (previous : Option Token) :
    peek.run ⟨lexer, some token, previous⟩ = (.ok (some token), ⟨lexer, some token, previous⟩) :=
  rfl

/-- A first look reads the source on, and keeps the token that it finds. -/
theorem run_peek_none (lexer : Lexer) (previous : Option Token) :
    peek.run ⟨lexer, none, previous⟩ =
      (lexer.next.1, ⟨lexer.next.2, lexer.next.1.toOption.join, previous⟩) := by
  have got : (get : TokenReader TokenStream).run ⟨lexer, none, previous⟩ =
      (.ok ⟨lexer, none, previous⟩, ⟨lexer, none, previous⟩) := rfl
  simp only [peek, run_bind, got]
  rcases lexer.next with ⟨_ | _, after⟩
  · rfl
  · rfl

/-- A token that is looked at can be taken. -/
theorem run_next (finds : peek.run stream = (.ok (some token), after)) :
    next.run stream = (.ok token, { after with peeked := none, previous := some token }) := by
  rw [next, run_bind, finds]
  rfl

/-- Only the value of a required token is kept. -/
theorem run_map_value (give : α → StreamAnswer) (reader : TokenReader (α × Token)) :
    (give <$> (do let (value, _) ← reader; return value)).run stream =
      ((fun pair => give pair.1) <$> reader).run stream := by
  rw [run_map, run_map, run_bind]
  rcases reader.run stream with ⟨_ | _, after⟩
  · rfl
  · rfl

/-- The token that has been looked at, if any, is the one that is not as expected. -/
theorem run_mismatch (cursor : Cursor) (lexer : Lexer) (expected : String) (known : Option Token) :
    (mismatch expected : TokenReader StreamAnswer).run ⟨lexer, known, cursor.previous⟩ =
      (.error (cursor.refusal expected known), ⟨lexer, known, cursor.previous⟩) := by
  cases known with
  | none => rfl
  | some token => rfl

variable {cursor : Cursor} {lexer : Lexer} {call : StreamCall}

/-- Requiring a token takes what is accepted, and leaves what is refused. -/
theorem run_consume (expected : String) (choose : TokenKind → Option α)
    (give : α → Token → StreamAnswer)
    (finds : peek.run stream = (.ok found, ⟨lexer, found, cursor.previous⟩)) :
    ((fun pair => give pair.1 pair.2) <$> consume expected choose).run stream =
      let answer := cursor.required expected found fun token =>
        (choose token.kind).map fun value => give value token
      (answer, if answer.isOk then ⟨lexer, none, found⟩ else ⟨lexer, found, cursor.previous⟩) := by
  rw [run_map, consume, run_bind, finds]
  cases found with
  | none => rfl
  | some token =>
    -- The token that was looked at is the one that is taken.
    rcases (choose token.kind).eq_none_or_eq_some with refused | ⟨value, accepted⟩
    · simp only [Cursor.required, Option.bind_some, refused]
      rfl
    · simp only [Cursor.required, Option.bind_some, accepted, run_bind,
        run_next (run_peek_some lexer token cursor.previous)]
      rfl

/-- A call that looks at the next token reports a fault that it meets there. -/
theorem run_call_of_fault {fault : Fault} (looks : call.looks = true)
    (fails : peek.run stream = (.error fault, after)) :
    call.reader.run stream = (.error fault, after) := by
  cases call with
  | mismatch expected => cases looks
  | _ =>
    -- Every other call starts with a look, directly or through the calls that it is made of.
    simp only [StreamCall.reader, hasMore, next, peekKeyword, peekSymbol, peekAs?, isKeyword,
      isSymbol, matchSymbol, consumeKeyword, consumeSymbol, consumeIdentifier, consumeType, consume,
      location, run_map, run_bind, fails]

/-- What a token shows is one of some values exactly when it is the token of one of them. -/
theorem any_contains_eq [DecidableEq α] {choose : TokenKind → Option α} {make : α → TokenKind}
    (shows : ∀ {kind value}, choose kind = some value ↔ kind = make value) (values : List α) :
    (found.bind fun token => choose token.kind).any values.contains =
      values.any fun value => found.any (·.kind = make value) := by
  cases found with
  | none => simp
  | some token =>
    rw [Bool.eq_iff_iff]
    simp [Option.any_eq_true, shows, and_comm]

/-- Whether a token is one of some keywords is told without taking it. -/
theorem run_isKeyword (keywords : List Keyword) (finds : peek.run stream = (.ok found, after)) :
    (isKeyword keywords).run stream =
      (.ok (keywords.any fun word => found.any (·.kind = .keyword word)), after) := by
  rw [isKeyword, run_bind, peekKeyword, peekAs?, run_bind, finds,
    ← any_contains_eq TokenKind.keyword?_eq_some_iff]
  rfl

/-- Whether a token is one of some symbols is told without taking it. -/
theorem run_isSymbol (symbols : List Char) (finds : peek.run stream = (.ok found, after)) :
    (isSymbol symbols).run stream =
      (.ok (symbols.any fun c => found.any (·.kind = .symbol c)), after) := by
  rw [isSymbol, run_bind, peekSymbol, peekAs?, run_bind, finds,
    ← any_contains_eq TokenKind.symbol?_eq_some_iff]
  rfl

/-- A symbol that is tried is taken if it is there. -/
theorem run_matchSymbol (symbol : Char)
    (finds : peek.run stream = (.ok found, ⟨lexer, found, cursor.previous⟩)) :
    (matchSymbol symbol).run stream =
      let there := found.any (·.kind = .symbol symbol)
      (.ok there, if there then ⟨lexer, none, found⟩ else ⟨lexer, found, cursor.previous⟩) := by
  rw [matchSymbol, run_bind, run_isSymbol [symbol] finds]
  cases found with
  | none => rfl
  | some token =>
    by_cases there : token.kind = .symbol symbol
    · simp only [there, List.any_cons, Option.any_some, decide_true, Bool.true_or, if_true,
        run_bind, run_next (run_peek_some lexer token cursor.previous)]
      rfl
    · simp only [there, List.any_cons, List.any_nil, Option.any_some, decide_false, Bool.false_or]
      rfl

/-- A call that looks at the next token answers for the one that it finds, and takes it or not. -/
theorem run_call_of_found (looks : call.looks = true)
    (finds : peek.run stream = (.ok found, ⟨lexer, found, cursor.previous⟩)) :
    call.reader.run stream =
      let answer := call.answer cursor found
      (answer, if call.takes answer then ⟨lexer, none, found⟩
        else ⟨lexer, found, cursor.previous⟩) := by
  cases call with
  | peek =>
    rw [StreamCall.reader, run_map, finds]
    rfl
  | hasMore =>
    rw [StreamCall.reader, run_map, hasMore, run_bind, finds]
    rfl
  | next =>
    rw [StreamCall.reader, run_map]
    cases found with
    | none =>
      rw [next, run_bind, finds]
      rfl
    | some token =>
      rw [run_next finds]
      rfl
  | peekKeyword =>
    rw [StreamCall.reader, run_map, peekKeyword, peekAs?, run_bind, finds]
    rfl
  | peekSymbol =>
    rw [StreamCall.reader, run_map, peekSymbol, peekAs?, run_bind, finds]
    rfl
  | isKeyword keywords =>
    rw [StreamCall.reader, run_map, run_isKeyword keywords finds]
    rfl
  | isSymbol symbols =>
    rw [StreamCall.reader, run_map, run_isSymbol symbols finds]
    rfl
  | matchSymbol symbol =>
    rw [StreamCall.reader, run_map, run_matchSymbol symbol finds, StreamCall.answer]
    cases found.any (·.kind = .symbol symbol) with
    | false => rfl
    | true => rfl
  | consumeKeyword keywords =>
    rw [StreamCall.answer, StreamCall.accept_consumeKeyword]
    exact (run_map_value .keyword _).trans (run_consume _ _ (fun word _ => .keyword word) finds)
  | consumeSymbol symbols =>
    rw [StreamCall.answer, StreamCall.accept_consumeSymbol]
    exact (run_map_value .symbol _).trans (run_consume _ _ (fun c _ => .symbol c) finds)
  | consumeIdentifier =>
    rw [StreamCall.answer, StreamCall.accept_consumeIdentifier]
    exact run_consume "identifier" _ _ finds
  | consumeType allowVoid =>
    rw [StreamCall.answer, StreamCall.accept_consumeType]
    exact (run_map_value .type _).trans (run_consume "type" _ (fun type _ => .type type) finds)
  | location =>
    rw [StreamCall.reader, run_map, location, run_bind, finds]
    cases found with
    | none => rfl
    | some token => rfl
  | mismatch expected => cases looks

end TokenReader

/-- The stream holds the token at the cursor if that has been looked at, and reads on behind it. -/
inductive TokenStream.Follows (results : Nat → Except Fault (Option Token)) :
    TokenStream → Cursor → Prop where
  | unseen {lexer : Lexer} {position : Nat} {previous : Option Token}
      (ahead : ∀ count, lexer.result count = results (position + count)) :
      Follows results ⟨lexer, none, previous⟩ ⟨position, false, previous⟩
  | seen {lexer : Lexer} {position : Nat} {token : Token} {previous : Option Token}
      (here : results position = .ok (some token))
      (ahead : ∀ count, lexer.result count = results (position + 1 + count)) :
      Follows results ⟨lexer, some token, previous⟩ ⟨position, true, previous⟩

namespace TokenStream.Follows

variable {results : Nat → Except Fault (Option Token)} {stream : TokenStream} {cursor : Cursor}

/-- A stream remembers the token that was taken last. -/
theorem previous_eq (follows : stream.Follows results cursor) :
    stream.previous = cursor.previous := by
  cases follows with
  | unseen ahead => rfl
  | seen here ahead => rfl

/-- A look at something malformed reports it and moves past it. -/
theorem peek_fault {fault : Fault} (follows : stream.Follows results cursor)
    (fails : results cursor.position = .error fault) :
    ∃ after, TokenReader.peek.run stream = (.error fault, after) ∧
      after.Follows results ⟨cursor.position + 1, false, cursor.previous⟩ := by
  cases follows with
  | @unseen lexer position previous ahead =>
    have read : lexer.next.1 = .error fault := (ahead 0).trans fails
    refine ⟨⟨lexer.next.2, none, previous⟩, ?_, .unseen fun count => ?_⟩
    · rw [TokenReader.run_peek_none, read]
      rfl
    · rw [← Lexer.result_succ, ahead, Nat.add_assoc, Nat.add_comm 1]
  | seen here ahead => cases here.symm.trans fails

/-- A look at a token, or at the end, finds what the cursor points at, and leaves it in place. -/
theorem peek_found {found : Option Token} (follows : stream.Follows results cursor)
    (finds : results cursor.position = .ok found) :
    ∃ lexer, TokenReader.peek.run stream = (.ok found, ⟨lexer, found, cursor.previous⟩) ∧
      Follows results ⟨lexer, found, cursor.previous⟩
        ⟨cursor.position, found.isSome, cursor.previous⟩ := by
  -- A first look reads on to the token, and a further one finds it kept.
  cases follows with
  | @unseen lexer position previous ahead =>
    have read : lexer.next.1 = .ok found := (ahead 0).trans finds
    have further : ∀ count, lexer.next.2.result count = results (position + 1 + count) := by
      intro count
      rw [← Lexer.result_succ, ahead, Nat.add_assoc, Nat.add_comm 1]
    refine ⟨lexer.next.2, ?_, ?_⟩
    · rw [TokenReader.run_peek_none, read]
      rfl
    · cases found with
      | some token => exact .seen finds further
      | none =>
        -- Behind the end there is nothing but the end.
        refine .unseen fun count => ?_
        rw [← ahead, Lexer.result_of_ended read, ← Lexer.result_succ, Lexer.result_of_ended read]
  | @seen lexer position token previous here ahead =>
    cases here.symm.trans finds
    exact ⟨lexer, TokenReader.run_peek_some lexer token previous, .seen here ahead⟩

/-- A token that is taken is left behind. -/
theorem take {lexer : Lexer} {token : Token} {position : Nat} {previous : Option Token}
    (follows : Follows results ⟨lexer, some token, previous⟩ ⟨position, true, previous⟩) :
    Follows results ⟨lexer, none, some token⟩ ⟨position + 1, false, some token⟩ := by
  cases follows with
  | seen here ahead => exact .unseen ahead

/-- The report of a mismatch names the token that has been looked at, and changes nothing. -/
theorem mismatch (follows : stream.Follows results cursor) (expected : String) :
    (StreamCall.mismatch expected).reader.run stream =
      ((cursor.step results (.mismatch expected)).1, stream) := by
  -- The stream knows the token only in the second case, as the cursor does.
  cases follows with
  | @unseen lexer position previous ahead =>
    exact TokenReader.run_mismatch ⟨position, false, previous⟩ lexer expected none
  | @seen lexer position token previous here ahead =>
    have known : (results position).toOption.join = some token := by
      rw [here]
      rfl
    simp only [Cursor.step, StreamCall.looks, known, if_true, StreamCall.answer]
    exact TokenReader.run_mismatch ⟨position, true, previous⟩ lexer expected (some token)

/-- Each call on a stream answers as it does at the cursor, and leads on as it does there. -/
theorem step (follows : stream.Follows results cursor) (call : StreamCall) :
    stream.answer call = (cursor.step results call).1 ∧
      (stream.after call).Follows results (cursor.step results call).2 := by
  -- What stands at the cursor decides, for every call that looks at it.
  by_cases looks : call.looks = true
  · cases reached : results cursor.position with
    | error fault =>
      obtain ⟨after, fails, further⟩ := follows.peek_fault reached
      simp only [answer, TokenStream.after, TokenReader.run_call_of_fault looks fails, Cursor.step,
        if_pos looks, reached, true_and]
      exact further
    | ok found =>
      obtain ⟨lexer, finds, further⟩ := follows.peek_found reached
      simp only [answer, TokenStream.after, TokenReader.run_call_of_found looks finds, Cursor.step,
        if_pos looks, reached, true_and]
      split
      · rename_i takes
        cases found with
        | none =>
          rw [StreamCall.takes_answer_none] at takes
          cases takes
        | some token => exact further.take
      · exact further
  · -- Only the report of a mismatch does without a look.
    cases call with
    | mismatch expected =>
      simp only [answer, TokenStream.after, follows.mismatch expected, true_and]
      exact follows
    | _ => exact absurd rfl looks

/-- The answers to some calls are the answers at the cursor. -/
theorem answers_eq (follows : stream.Follows results cursor) (calls : List StreamCall) :
    stream.answers calls = cursor.answers results calls := by
  -- The induction is on the calls: after each of them the stream follows the cursor again.
  induction calls generalizing stream cursor with
  | nil => rfl
  | cons call rest ih =>
    obtain ⟨same, further⟩ := follows.step call
    rw [answers, Cursor.answers, same, ih further]

/-- Calls lead to where they lead the cursor. -/
theorem exists_cursor (follows : stream.Follows results cursor) (calls : List StreamCall) :
    ∃ reached, (stream.afterAll calls).Follows results reached := by
  induction calls generalizing stream cursor with
  | nil => exact ⟨cursor, follows⟩
  | cons call rest ih => exact ih (follows.step call).2

variable (lexical : ∀ position fault, results position = .error fault →
  ∃ cause, fault.cause = .lexical cause)
include lexical

/-- A call moves past the result at the cursor, or past none. -/
theorem passed_cases (follows : stream.Follows results cursor) (call : StreamCall) :
    (stream.passed call = [results cursor.position] ∧
      ∃ previous, (stream.after call).Follows results ⟨cursor.position + 1, false, previous⟩) ∨
    (stream.passed call = [] ∧
      ∃ looked, (stream.after call).Follows results ⟨cursor.position, looked, cursor.previous⟩) := by
  -- The stream passes what the cursor passes, and its faults tell malformed text from refusals.
  obtain ⟨same, further⟩ := follows.step call
  rcases cursor.step_cases results call with ⟨fault, fails, stepped⟩ |
    ⟨token, finds, takes, stepped⟩ | ⟨known, looked, stays, stepped⟩
  · obtain ⟨place, cause⟩ := fault
    obtain ⟨cause, rfl⟩ := lexical _ _ fails
    rw [stepped] at same further
    refine .inl ⟨?_, _, further⟩
    rw [passed, same, fails]
  · rw [stepped] at same further
    refine .inl ⟨?_, _, further⟩
    cases answered : call.answer cursor (some token) with
    | error fault =>
      rw [answered, StreamCall.takes_error] at takes
      cases takes
    | ok answer =>
      rw [answered] at takes same
      rw [passed, same, finds, further.previous_eq]
      exact if_pos takes
  · rw [stepped] at same further
    refine .inr ⟨?_, _, further⟩
    rw [passed, same]
    cases answered : call.answer cursor known with
    | error fault =>
      obtain ⟨place, cause⟩ := fault
      obtain ⟨cause, rfl⟩ := StreamCall.cause_of_answer answered
      exact if_neg (by simp [StreamCall.takes_error])
    | ok answer =>
      rw [answered] at stays
      exact if_neg (by simp [stays])

/-- What some calls move past are the results from the cursor on, none left out or met twice. -/
theorem exists_passedAll_eq (follows : stream.Follows results cursor) (calls : List StreamCall) :
    ∃ count, stream.passedAll calls = (List.range' cursor.position count).map results := by
  -- The induction is on the calls, each of which moves the cursor by one result or not at all.
  induction calls generalizing stream cursor with
  | nil => exact ⟨0, rfl⟩
  | cons call rest ih =>
    rcases follows.passed_cases lexical call with ⟨moves, _, further⟩ | ⟨stays, _, further⟩
    · obtain ⟨count, passed⟩ := ih further
      refine ⟨count + 1, ?_⟩
      rw [passedAll, moves, passed, List.range'_succ, List.map_cons]
      rfl
    · obtain ⟨count, passed⟩ := ih further
      refine ⟨count, ?_⟩
      rw [passedAll, stays, passed]
      rfl

/-- Calls that move past nothing leave the cursor in place. -/
theorem afterAll (follows : stream.Follows results cursor) {calls : List StreamCall}
    (stays : stream.passedAll calls = []) :
    ∃ looked, (stream.afterAll calls).Follows results
      ⟨cursor.position, looked, cursor.previous⟩ := by
  -- If all calls together move past nothing, so does each of them.
  induction calls generalizing stream cursor with
  | nil => exact ⟨cursor.looked, follows⟩
  | cons call rest ih =>
    obtain ⟨first, others⟩ := List.append_eq_nil_iff.mp stays
    rcases follows.passed_cases lexical call with ⟨moves, -⟩ | ⟨-, _, further⟩
    · rw [moves] at first
      cases first
    · obtain ⟨looked, reached⟩ := ih further others
      exact ⟨looked, reached⟩

/-- Calls that move past nothing change no answer of a call that looks at the next token. -/
theorem answer_again (follows : stream.Follows results cursor) {calls : List StreamCall}
    (stays : stream.passedAll calls = []) {call : StreamCall} (looks : call.looks = true) :
    (stream.afterAll calls).answer call = stream.answer call := by
  obtain ⟨looked, further⟩ := follows.afterAll lexical stays
  rw [(further.step call).1, (follows.step call).1, Cursor.answer_step_eq results looks]

end TokenStream.Follows

/-- At the start of a source nothing has been looked at. -/
theorem TokenStream.follows_ofSource (source : String) :
    (ofSource source).Follows (Lexer.ofSource source).result {} :=
  .unseen fun count => by rw [Nat.zero_add]

/-- Whatever calls are made on the stream of a source, in any order, it answers as a cursor does
that points at one result of reading the source after the other, malformed ones and the end
included. What the calls take and report are the first of these results, each once and in order,
and a call that looks at the next token answers the same until that is taken or reported. -/
theorem stream_follows_results (source : String) (calls : List StreamCall) :
    let stream := TokenStream.ofSource source
    let results := (Lexer.ofSource source).result
    stream.answers calls = ({} : Cursor).answers results calls ∧
    (∃ count, stream.passedAll calls = (List.range count).map results) ∧
    ∀ (between : List StreamCall) (call : StreamCall), call.looks = true →
      (stream.afterAll calls).passedAll between = [] →
      ((stream.afterAll calls).afterAll between).answer call =
        (stream.afterAll calls).answer call := by
  intro stream results
  have follows : stream.Follows results {} := TokenStream.follows_ofSource source
  have lexical : ∀ position fault, results position = .error fault →
      ∃ cause, fault.cause = .lexical cause := fun _ _ => Lexer.cause_of_result
  refine ⟨follows.answers_eq calls, ?_, ?_⟩
  · obtain ⟨count, passed⟩ := follows.exists_passedAll_eq lexical calls
    exact ⟨count, by rw [passed, List.range_eq_range']⟩
  · intro between call looks stays
    obtain ⟨cursor, reached⟩ := follows.exists_cursor calls
    exact reached.answer_again lexical stays looks

/-- What is malformed is reported once and skipped, and a token that is refused stays. -/
example : (TokenStream.ofSource "do \"a\nx").answers
    [.next, .mismatch "';'", .peek, .consumeSymbol [';'], .consumeIdentifier, .location] =
    [.ok (.token ⟨.keyword .do, ⟨0, 2, ⟨1, 1⟩⟩⟩),
      .error ⟨⟨1, 3⟩, .syntactic .unexpectedEnd⟩,
      .error ⟨⟨1, 4⟩, .lexical .unterminatedString⟩,
      .error ⟨⟨2, 1⟩, .syntactic (.unexpected "';'" (.identifier "x"))⟩,
      .ok (.name "x" ⟨.identifier "x", ⟨6, 1, ⟨2, 1⟩⟩⟩),
      .ok (.location ⟨2, 2⟩)] := by
  cbv

end JackCompiler
