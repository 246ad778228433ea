import JackCompiler.Proofs.Compilation.Alike
import JackCompiler.Proofs.Compilation.Progress
import JackCompiler.Proofs.Token.Lookahead
import JackCompiler.Proofs.Token.Scanned

/-! A compilation that asks its source for each token when it looks at it comes to an end, and asks
for nothing behind the first fault. -/

namespace JackCompiler

/-- What a source answers when it is asked for a token. -/
abbrev TokenAnswer := Except Fault (Option Token)

/-- The token that an event reports as looked at. -/
def Event.token? : Event → Option Token
  | .token found => some found
  | _ => none

/-- A compilation that reads its tokens from a stream. -/
structure Engine where
  stream : TokenStream
  /-- The answers that the source has given, in the order of asking. -/
  asked : List TokenAnswer := []
  pending : List Pending
  unit : ClassUnit := {}
  emitted : List Command := []

namespace Engine

/-- Nothing has been asked of a source, and a whole class is pending. -/
def ofSource (source : String) : Engine :=
  { stream := .ofSource source, pending := (Compilation.start []).pending }

/-- A look at the next token, for which the source is asked if it has not been looked at before. -/
def look (engine : Engine) : TokenAnswer × Engine :=
  let (found, stream) := TokenReader.peek.run engine.stream
  let answers := if engine.stream.peeked.isSome then [] else [engine.stream.lexer.next.1]
  (found, { engine with stream, asked := engine.asked ++ answers })

/-- What one step comes to. -/
inductive Step where
  | go (next : Engine)
  | stop (outcome : Except Fault (List Command)) (last : Engine)

/-- A part makes way for the parts it brings. -/
def replace (engine : Engine) (rest : List Pending) (move : Move) : Engine :=
  { engine with
    pending := move.pending ++ rest
    unit := move.unit
    emitted := engine.emitted ++ move.code }

/-- The next token is taken. -/
def takeToken (engine : Engine) : Engine :=
  { engine with stream := (TokenReader.next.run engine.stream).2 }

/-- The token that was looked at is not as described. -/
def refuse (engine : Engine) (expected : String) : Step :=
  .stop ((TokenReader.mismatch expected).run engine.stream).1 engine

/-- A part goes on, or fails, at the token that was looked at. -/
def goOn (engine : Engine) (found : Option Token) (part : Pending) (rest : List Pending) : Step :=
  match found.bind fun token => part.take? engine.unit token with
  | some (.ok move) => .go (engine.takeToken.replace rest move)
  | some (.error fault) => .stop (.error fault) engine
  | none =>
    match part.leave engine.unit with
    | .go move => .go (engine.replace rest move)
    | .refuse expected => engine.refuse expected
    | .fail fault => .stop (.error fault) engine

/-- The next step. Only code that is due is emitted without a look at the next token. -/
def step (engine : Engine) : Step :=
  match engine.pending with
  | .emit code :: rest => .go (engine.replace rest { code, unit := engine.unit })
  | [] =>
    match engine.look with
    | (.error fault, engine) => .stop (.error fault) engine
    | (.ok none, engine) => .stop (.ok engine.emitted) engine
    | (.ok (some _), engine) => engine.refuse "end of file after class body"
  | part :: rest =>
    match engine.look with
    | (.error fault, engine) => .stop (.error fault) engine
    | (.ok found, engine) => engine.goOn found part rest

/-- A number of steps lead from one place to another. -/
inductive Steps : Nat → Engine → Engine → Prop
  | refl (engine : Engine) : Steps 0 engine engine
  | head {count : Nat} {first next last : Engine} (went : first.step = .go next)
    (steps : Steps count next last) : Steps (count + 1) first last

variable {engine next last after : Engine} {found : Option Token} {token : Token}

/-- A token that has been looked at is not asked for again. -/
theorem look_of_peeked (peeked : engine.stream.peeked = some token) :
    engine.look = (.ok (some token), engine) := by
  obtain ⟨⟨lexer, _, previous⟩, asked, pending, unit, emitted⟩ := engine
  obtain rfl := peeked
  simp [look, TokenReader.run_peek_some]

/-- A first look asks the source for a token, and keeps what it finds. -/
theorem look_of_none (none : engine.stream.peeked = none) :
    engine.look = (engine.stream.lexer.next.1,
      { engine with
        stream := ⟨engine.stream.lexer.next.2, engine.stream.lexer.next.1.toOption.join,
          engine.stream.previous⟩
        asked := engine.asked ++ [engine.stream.lexer.next.1] }) := by
  obtain ⟨⟨lexer, _, previous⟩, asked, pending, unit, emitted⟩ := engine
  obtain rfl := none
  simp [look, TokenReader.run_peek_none]

/-- A token that has been looked at is taken. -/
theorem stream_takeToken (peeked : engine.stream.peeked = some token) :
    engine.takeToken.stream = ⟨engine.stream.lexer, none, some token⟩ := by
  obtain ⟨⟨lexer, _, previous⟩, asked, pending, unit, emitted⟩ := engine
  obtain rfl := peeked
  rw [takeToken, TokenReader.run_next (TokenReader.run_peek_some lexer token previous)]

/-- Reading on leaves no more of the text than before. -/
theorem length_next_le (lexer : Lexer) : lexer.next.2.rest.length ≤ lexer.rest.length := by
  -- The gap goes first, and whatever is read behind it is dropped as well.
  have gap : lexer.skipGap.rest.length ≤ lexer.rest.length := by
    simp [Lexer.skipGap, Lexer.rest_skip]
  have reading : ∀ count, (lexer.skipGap.skip count).rest.length ≤ lexer.rest.length := by
    intro count
    rw [Lexer.rest_skip, List.length_drop]
    omega
  simp only [Lexer.next]
  split
  · exact gap
  · split <;> exact reading _

/-- A bound on the tokens that are left: the one that was looked at, and one for each character. -/
def left (engine : Engine) : Nat :=
  (if engine.stream.peeked.isSome then 1 else 0) + engine.stream.lexer.rest.length

/-- A look that succeeds keeps the token that it finds, and changes nothing else but the stream. -/
theorem look_ok (looked : engine.look = (.ok found, after)) :
    after.stream.peeked = found ∧ after.pending = engine.pending ∧ after.unit = engine.unit ∧
      after.left ≤ engine.left := by
  cases peeked : engine.stream.peeked with
  | some token =>
    rw [look_of_peeked peeked] at looked
    cases looked
    exact ⟨peeked, rfl, rfl, Nat.le_refl _⟩
  | none =>
    rw [look_of_none peeked, Prod.mk.injEq] at looked
    obtain ⟨answered, rfl⟩ := looked
    rw [answered]
    refine ⟨rfl, rfl, rfl, ?_⟩
    -- A token that is found is shorter than the text was, so it is counted at no expense.
    have kept := length_next_le engine.stream.lexer
    cases found with
    | none => simpa [left, peeked, answered, Except.toOption] using kept
    | some token =>
      have read : engine.stream.lexer.next = (.ok (some token), engine.stream.lexer.next.2) :=
        Prod.ext answered rfl
      have fewer := Lexer.length_next_lt read
      simp only [left, peeked, Except.toOption, Option.join_some, Option.isSome_some,
        Option.isSome_none, if_true, Bool.false_eq_true, if_false]
      omega

/-- What is pending has no say in the tokens that are left. -/
@[simp] theorem left_replace (rest : List Pending) (move : Move) :
    (engine.replace rest move).left = engine.left := rfl

/-- A token that is taken is one of those that were left. -/
theorem left_takeToken (peeked : engine.stream.peeked = some token) :
    engine.takeToken.left + 1 = engine.left := by
  simp only [left, stream_takeToken peeked, peeked, Option.isSome_some, Option.isSome_none, if_true,
    Bool.false_eq_true, if_false]
  omega

/-- A bound on the number of steps that are left. -/
def potential (engine : Engine) : Nat :=
  Pending.tokenWeight * engine.left + Pending.totalWeight engine.pending

/-- Going on at a token takes it, or leaves a part for lighter ones. -/
theorem potential_goOn {part : Pending} {rest : List Pending}
    (peeked : engine.stream.peeked = found) (went : engine.goOn found part rest = .go next) :
    next.potential < Pending.tokenWeight * engine.left + Pending.totalWeight (part :: rest) := by
  unfold goOn at went
  split at went
  · -- The token that is taken weighs more than all that it brings.
    rename_i move taken
    cases went
    obtain ⟨token, rfl, taken⟩ := Option.bind_eq_some_iff.mp taken
    have weight := Pending.totalWeight_take taken
    rw [potential, left_replace, ← left_takeToken peeked, Nat.mul_succ, replace,
      Pending.totalWeight_append, Pending.totalWeight_cons]
    omega
  · cases went
  · split at went
    · -- Without a token the parts themselves become lighter.
      rename_i move gone
      cases went
      have weight := Pending.totalWeight_leave gone
      rw [potential, left_replace, replace, Pending.totalWeight_append, Pending.totalWeight_cons]
      omega
    · cases went
    · cases went

/-- Every step leaves fewer steps to go. -/
theorem potential_step (went : engine.step = .go next) : next.potential < engine.potential := by
  unfold step at went
  split at went
  · rename_i code rest pending
    cases went
    rw [potential, left_replace, potential, pending, Pending.totalWeight_cons]
    exact Nat.add_lt_add_left (Nat.lt_add_of_pos_left (Pending.weight_pos _)) _
  · split at went <;> cases went
  · rename_i part rest other pending
    split at went
    · cases went
    · -- The look itself leaves no more tokens than there were.
      rename_i found after looked
      obtain ⟨peeked, -, -, fewer⟩ := look_ok looked
      have lighter := potential_goOn peeked went
      have tokens := Nat.mul_le_mul_left Pending.tokenWeight fewer
      calc
        _ < Pending.tokenWeight * after.left + Pending.totalWeight (part :: rest) := lighter
        _ ≤ Pending.tokenWeight * engine.left + Pending.totalWeight (part :: rest) :=
          Nat.add_le_add_right tokens _
        _ = engine.potential := by rw [potential, pending]

/-- The potential bounds the number of steps. -/
theorem Steps.count_le {count : Nat} {first : Engine} (steps : Steps count first last) :
    count + last.potential ≤ first.potential := by
  induction steps with
  | refl engine => exact Nat.le_of_eq (Nat.zero_add _)
  | head went _ ih =>
    have fewer := potential_step went
    omega

/-- A class takes at most twelve steps for each character of its source, and five more. -/
theorem potential_ofSource (source : String) :
    (ofSource source).potential = 12 * source.length + 5 := by
  show 12 * (0 + source.toList.length) + 5 = _
  rw [Nat.zero_add, String.length_toList]

/-- The tokens among the answers that a source has given. -/
def tokens (engine : Engine) : List Token := engine.asked.filterMap (·.toOption.join)

/-- The answers are those that the source gives to so many questions. They are tokens, or the end of
the source, up to the last of them, and a fault among them is the outcome. -/
structure AsksUpToFault (engine : Engine) (source : String)
    (outcome : Except Fault (List Command)) : Prop where
  asked : engine.asked = (List.range engine.asked.length).map (Lexer.ofSource source).result
  sound : ∀ answer ∈ engine.asked.dropLast, ∃ found, answer = .ok found
  fault : ∀ fault, .error fault ∈ engine.asked → outcome = .error fault

/-- The engine stands where the compilation does, which knows its next token if that has been looked
at, and all answers so far are sound. -/
structure Follows (source : String) (known : Bool) (compilation : Compilation) (engine : Engine) :
    Prop where
  pending : engine.pending = compilation.pending
  unit : engine.unit = compilation.unit
  peeked : engine.stream.peeked = if known then compilation.tokens.head? else none
  holds : Scan.Holds ⟨if known then compilation.tokens.tail else compilation.tokens,
    (Scan.ofSource source).fault?⟩ engine.stream.lexer
  previous : ∃ taken, (Scan.ofSource source).tokens = taken ++ compilation.tokens ∧
    engine.stream.previous = taken.getLast?
  lexer : engine.stream.lexer = (Lexer.ofSource source).after engine.asked.length
  asked : engine.asked = (List.range engine.asked.length).map (Lexer.ofSource source).result
  sound : ∀ answer ∈ engine.asked, ∃ found, answer = .ok found

/-- Before anything is asked, the engine stands at the start of the class. -/
theorem follows_start (source : String) :
    Follows source false (.start (Scan.ofSource source).tokens) (ofSource source) where
  pending := rfl
  unit := rfl
  peeked := rfl
  holds := Scan.holds_ofSource source
  previous := ⟨[], rfl, rfl⟩
  lexer := rfl
  asked := rfl
  sound := nofun

section

variable {source : String} {known : Bool} {compilation : Compilation}

/-- Where no question is answered by a fault, the engine has asked for nothing behind one. -/
theorem Follows.asksUpToFault (follows : Follows source known compilation engine)
    (outcome : Except Fault (List Command)) : engine.AsksUpToFault source outcome where
  asked := follows.asked
  sound answer member := follows.sound answer (List.dropLast_subset _ member)
  fault fault member := by
    obtain ⟨found, same⟩ := follows.sound _ member
    cases same

/-- The answer to one more question stands behind those before it. -/
theorem Follows.asked_concat (follows : Follows source known compilation engine) :
    engine.asked ++ [engine.stream.lexer.next.1] =
      (List.range (engine.asked.length + 1)).map (Lexer.ofSource source).result := by
  rw [List.range_succ, List.map_append, ← follows.asked, follows.lexer]
  rfl

/-- The tokens that a look asks for: the next one, if it is not known already. -/
def asksFor (known : Bool) (compilation : Compilation) : List Token :=
  if known then [] else compilation.tokens.head?.toList

/-- A look finds the next token, the end of the source, or its fault. -/
theorem Follows.look (follows : Follows source known compilation engine) :
    (∃ after, engine.look = (.ok compilation.tokens.head?, after) ∧
      Follows source true compilation after ∧ after.emitted = engine.emitted ∧
      after.tokens = engine.tokens ++ asksFor known compilation ∧
      (compilation.tokens = [] → (Scan.ofSource source).fault? = none)) ∨
    ∃ fault after, engine.look = (.error fault, after) ∧ compilation.tokens = [] ∧
      (Scan.ofSource source).fault? = some fault ∧ after.tokens = engine.tokens ∧
      after.AsksUpToFault source (.error fault) := by
  cases peeked : engine.stream.peeked with
  | some token =>
    -- The token was asked for earlier.
    obtain ⟨known, first⟩ := by simpa [follows.peeked] using peeked
    subst known
    exact .inl ⟨engine, by rw [look_of_peeked peeked, first], follows, rfl,
      (List.append_nil _).symm, fun none => by simp [none] at first⟩
  | none =>
    have asked := follows.asked_concat
    rw [look_of_none peeked]
    obtain ⟨tokens, pending, unit⟩ := compilation
    cases tokens with
    | cons token tokens =>
      -- The answer is the next token of the scan, which is known from now on.
      obtain rfl : known = false := by simpa [follows.peeked] using peeked
      obtain ⟨answered, behind⟩ := follows.holds.next
      rw [answered] at asked ⊢
      refine .inl ⟨_, rfl, ⟨follows.pending, follows.unit, rfl, behind, follows.previous, ?_, ?_,
        ?_⟩, rfl, ?_, nofun⟩
      · simp [follows.lexer, Lexer.after]
      · simpa using asked
      · simpa [or_imp, forall_and] using follows.sound
      · simp [Engine.tokens, asksFor, Except.toOption]
    | nil =>
      -- Behind the last token the source gives its end, again and again, or its fault.
      have holds : Scan.Holds ⟨[], (Scan.ofSource source).fault?⟩ engine.stream.lexer := by
        simpa using follows.holds
      cases sound : (Scan.ofSource source).fault? with
      | none =>
        rw [sound] at holds
        obtain ⟨answered, behind⟩ := holds.ended
        rw [answered] at asked ⊢
        refine .inl ⟨_, rfl, ⟨follows.pending, follows.unit, rfl, by simpa [sound] using behind,
          follows.previous, ?_, ?_, ?_⟩, rfl, ?_, fun _ => rfl⟩
        · simp [follows.lexer, Lexer.after]
        · simpa using asked
        · simpa [or_imp, forall_and] using follows.sound
        · simp [Engine.tokens, asksFor, Except.toOption]
      | some fault =>
        have answered : engine.stream.lexer.next.1 = .error fault := by
          have last := holds.last
          rwa [sound] at last
        rw [answered] at asked ⊢
        refine .inr ⟨fault, _, rfl, rfl, rfl, ?_, ?_, ?_, ?_⟩
        · simp [Engine.tokens, Except.toOption]
        · simpa using asked
        · simpa using follows.sound
        · -- The answers before this one were sound, so that it is the only fault.
          intro other member
          rcases List.mem_append.mp member with earlier | last
          · obtain ⟨found, same⟩ := follows.sound _ earlier
            cases same
          · cases List.mem_singleton.mp last
            rfl

/-- Where nothing is pending, the source should end. -/
theorem step_nil (pending : engine.pending = []) : engine.step =
    match engine.look with
    | (.error fault, engine) => .stop (.error fault) engine
    | (.ok none, engine) => .stop (.ok engine.emitted) engine
    | (.ok (some _), engine) => engine.refuse "end of file after class body" := by
  unfold step
  rw [pending]

/-- A part other than code that is due goes on at the next token. -/
theorem step_cons {part : Pending} {rest : List Pending} (pending : engine.pending = part :: rest)
    (other : ∀ code, part ≠ .emit code) : engine.step =
      match engine.look with
      | (.error fault, engine) => .stop (.error fault) engine
      | (.ok found, engine) => engine.goOn found part rest := by
  unfold step
  rw [pending]
  cases part with
  | emit code => exact absurd rfl (other code)
  | _ => rfl

/-- A token that is refused is named in the fault. -/
theorem refuse_of_peeked (peeked : engine.stream.peeked = some token) (expected : String) :
    engine.refuse expected =
      .stop (.error ⟨token.location, .syntactic (.unexpected expected token.kind)⟩) engine := by
  obtain ⟨⟨lexer, _, previous⟩, asked, pending, unit, emitted⟩ := engine
  obtain rfl := peeked
  rfl

/-- Where no token is left, the end of the source is the fault. -/
theorem refuse_of_none (none : engine.stream.peeked = none) (expected : String) :
    engine.refuse expected =
      .stop (.error ⟨engine.stream.endLocation, .syntactic .unexpectedEnd⟩) engine := by
  obtain ⟨⟨lexer, _, previous⟩, asked, pending, unit, emitted⟩ := engine
  obtain rfl := none
  rfl

/-- The engine goes on with the compilation, finishes with it or fails with it. The next token is
known behind a step that looks at it and does not take it. -/
inductive Mirrors (source : String) (looked : Bool) (emitted : List Command) (tokens : List Token) :
    Compilation.Step → Step → Prop
  | go {taken? : Option Token} {code : List Command} {following : Compilation} {next : Engine}
      (follows : Follows source (taken?.isNone && looked) following next)
      (same : next.emitted = emitted ++ code) (asked : next.tokens = tokens) :
      Mirrors source looked emitted tokens (.go taken? code following) (.go next)
  | done {last : Engine} (asks : last.AsksUpToFault source (.ok emitted))
      (asked : last.tokens = tokens) :
      Mirrors source looked emitted tokens .done (.stop (.ok emitted) last)
  | fail {fault : Fault} {last : Engine} (asks : last.AsksUpToFault source (.error fault))
      (asked : last.tokens = tokens) :
      Mirrors source looked emitted tokens (.fail fault) (.stop (.error fault) last)

/-- A part that makes way does so for the engine too, and is refused with the same fault. -/
theorem Follows.mirrors_leave {part : Pending} {rest : List Pending} {unit : ClassUnit}
    {tokens : List Token} {refusal : String → Fault}
    (follows : Follows source true ⟨tokens, part :: rest, unit⟩ engine)
    (refused : ∀ expected, engine.refuse expected = .stop (.error (refusal expected)) engine) :
    Mirrors source true engine.emitted engine.tokens
      (Compilation.leaveFirst tokens part rest unit refusal)
      (match part.leave unit with
        | .go move => .go (engine.replace rest move)
        | .refuse expected => engine.refuse expected
        | .fail fault => .stop (.error fault) engine) := by
  rw [Compilation.leaveFirst]
  cases part.leave unit with
  | go move =>
    exact .go ⟨rfl, rfl, follows.peeked, follows.holds, follows.previous, follows.lexer,
      follows.asked, follows.sound⟩ rfl rfl
  | refuse expected =>
    dsimp only
    rw [refused]
    exact .fail (follows.asksUpToFault _) rfl
  | fail fault => exact .fail (follows.asksUpToFault _) rfl

/-- The first part goes on in the engine as it does in the compilation. -/
theorem Follows.mirrors_goOn {part : Pending} {rest : List Pending} {unit : ClassUnit}
    {tokens : List Token} (follows : Follows source true ⟨tokens, part :: rest, unit⟩ engine)
    (sound : tokens = [] → (Scan.ofSource source).fault? = none) :
    Mirrors source true engine.emitted engine.tokens
      (Compilation.step (Scan.ofSource source).ending ⟨tokens, part :: rest, unit⟩)
      (engine.goOn tokens.head? part rest) := by
  -- The part sees the same token, or the same end, in both.
  cases tokens with
  | nil =>
    -- The place reported for the end is behind the last token that was taken.
    obtain ⟨taken, split, previous⟩ := follows.previous
    have ending : (Scan.ofSource source).ending = .ok engine.stream.endLocation := by
      rw [Scan.ending, sound rfl, split, List.append_nil, TokenStream.endLocation, previous]
    rw [ending, Compilation.step_end]
    simp only [goOn, List.head?_nil, Option.bind_none, follows.unit]
    exact follows.mirrors_leave fun expected => refuse_of_none follows.peeked expected
  | cons token tokens =>
    have peeked : engine.stream.peeked = some token := follows.peeked
    rw [Compilation.step_token]
    simp only [goOn, List.head?_cons, Option.bind_some, follows.unit]
    cases taken : part.take? unit token with
    | none => exact follows.mirrors_leave fun expected => refuse_of_peeked peeked expected
    | some result =>
      cases result with
      | error fault => exact .fail (follows.asksUpToFault _) rfl
      | ok move =>
        have stream := stream_takeToken peeked
        obtain ⟨before, split, -⟩ := follows.previous
        refine .go ⟨rfl, rfl, ?_, ?_, ⟨before ++ [token], by simpa using split, ?_⟩, ?_,
          follows.asked, follows.sound⟩ rfl rfl
        · exact congrArg TokenStream.peeked stream
        · exact (congrArg TokenStream.lexer stream) ▸ follows.holds
        · rw [List.getLast?_concat]
          exact congrArg TokenStream.previous stream
        · exact (congrArg TokenStream.lexer stream).trans follows.lexer

/-- Every step of the engine mirrors the step of the compilation, and asks for what that looks
at. -/
theorem Follows.mirrors (follows : Follows source known compilation engine) :
    Mirrors source (known || compilation.looks) engine.emitted
      (engine.tokens ++ if compilation.looks then asksFor known compilation else [])
      (compilation.step (Scan.ofSource source).ending) engine.step := by
  obtain ⟨tokens, pending, unit⟩ := compilation
  by_cases emits : ∃ code rest, pending = .emit code :: rest
  · -- Code that is due is emitted without a look at the tokens.
    obtain ⟨code, rest, rfl⟩ := emits
    have stepped : engine.step = .go (engine.replace rest { code, unit := engine.unit }) := by
      unfold step
      rw [follows.pending]
    have went : Compilation.step (Scan.ofSource source).ending ⟨tokens, .emit code :: rest, unit⟩ =
        .go none code ⟨tokens, rest, unit⟩ := by
      cases tokens <;> rfl
    have stays : (known || Compilation.looks ⟨tokens, .emit code :: rest, unit⟩) = known :=
      Bool.or_false known
    rw [stepped, went, stays]
    exact .go ⟨rfl, follows.unit, follows.peeked, follows.holds, follows.previous, follows.lexer,
      follows.asked, follows.sound⟩ rfl (List.append_nil _).symm
  have looks : Compilation.looks ⟨tokens, pending, unit⟩ = true := by
    unfold Compilation.looks
    split
    · exact absurd ⟨_, _, ‹_›⟩ emits
    · rfl
  have part : ∀ {part rest}, pending = part :: rest → ∀ code, part ≠ .emit code := by
    rintro part rest rfl code rfl
    exact emits ⟨code, rest, rfl⟩
  rw [looks, Bool.or_true, if_pos rfl]
  rcases follows.look with ⟨after, looked, further, same, answers, sound⟩ |
    ⟨fault, after, looked, none, failed, answers, asks⟩
  · rw [← same, ← answers]
    cases pending with
    | nil =>
      rw [step_nil follows.pending, looked]
      cases tokens with
      | nil =>
        rw [Scan.ending, sound rfl]
        exact .done (further.asksUpToFault _) rfl
      | cons token tokens =>
        have refused := refuse_of_peeked (further.peeked : after.stream.peeked = some token)
        simp only [List.head?_cons, refused]
        exact .fail (further.asksUpToFault _) rfl
    | cons _ rest =>
      rw [step_cons follows.pending (part rfl), looked]
      exact further.mirrors_goOn sound
  · -- A fault of the source ends the compilation at once.
    obtain rfl : tokens = [] := none
    rw [Scan.ending_eq_error_iff.mpr failed]
    have asked : after.tokens = engine.tokens ++ asksFor known ⟨[], pending, unit⟩ := by
      simp [answers, asksFor]
    cases pending with
    | nil =>
      rw [step_nil follows.pending, looked]
      exact .fail asks asked
    | cons first rest =>
      rw [step_cons follows.pending (part rfl), looked]
      have fails : Compilation.step (.error fault) ⟨[], first :: rest, unit⟩ = .fail fault := by
        cases first with
        | emit code => exact absurd rfl (part rfl code)
        | _ => rfl
      rw [fails]
      exact .fail asks asked

/-- A look reports the token that it asks for. -/
theorem token?_lookedAt (known : Bool) (compilation : Compilation) :
    (((if known then none else compilation.lookedAt?).map Event.token).toList).filterMap
        Event.token? =
      if compilation.looks then asksFor known compilation else [] := by
  unfold Compilation.lookedAt? asksFor
  cases known <;> cases compilation.looks <;> cases compilation.tokens.head? <;> rfl

/-- No token is looked at for the beginning of a class or of a subroutine. -/
theorem token?_announcement (compilation : Compilation) (taken? : Option Token) :
    (compilation.announcement? taken?).toList.filterMap Event.token? = [] := by
  cases announced : compilation.announcement? taken? with
  | none => rfl
  | some event =>
    obtain ⟨token, -, announced⟩ := Option.bind_eq_some_iff.mp announced
    obtain ⟨name, -, announced⟩ := Option.bind_eq_some_iff.mp announced
    obtain ⟨part, -, announced⟩ := Option.bind_eq_some_iff.mp announced
    cases part <;> cases announced <;> rfl

/-- The engine comes to the outcome of the compilation, and asks for the tokens that the course of
the compilation reports. -/
theorem Follows.exists_run (follows : Follows source known compilation engine)
    {code : Array Command} (emitted : code.toList = engine.emitted) {events : Array Event}
    (reported : events.toList.filterMap Event.token? = engine.tokens) :
    ∃ count final last, Steps count engine final ∧
      final.step = .stop (compilation.run (Scan.ofSource source).ending code) last ∧
      last.AsksUpToFault source (compilation.run (Scan.ofSource source).ending code) ∧
      (compilation.trace (Scan.ofSource source).ending known events).toList.filterMap Event.token? =
        last.tokens := by
  -- The induction is on the course of the compilation, which the engine mirrors step by step.
  fun_induction Compilation.trace (Scan.ofSource source).ending known compilation events
    generalizing engine code
  case case1 known compilation events look? looked taken? emits following went all ih =>
    have mirrors := follows.mirrors
    rw [went] at mirrors
    generalize stepped : engine.step = step at mirrors
    cases mirrors with
    | @go _ _ _ next further same asked =>
      have outcome : compilation.run (Scan.ofSource source).ending code =
          following.run (Scan.ofSource source).ending (code ++ emits) := by
        rw [Compilation.run]
        split <;> simp_all
      have together : (code ++ emits).toList = next.emitted := by simp [emitted, same]
      have reported : all.toList.filterMap Event.token? = next.tokens := by
        have commands : (emits.map Event.command).filterMap Event.token? = [] := by
          simp [Event.token?]
        simp [all, looked, look?, reported, asked, token?_lookedAt, token?_announcement, commands]
      obtain ⟨count, final, last, steps, stops, asks, tokens⟩ := ih further together reported
      rw [outcome]
      exact ⟨count + 1, final, last, .head stepped steps, stops, asks, tokens⟩
  case case2 known compilation events look? looked went =>
    have mirrors := follows.mirrors
    rw [went] at mirrors
    generalize stepped : engine.step = step at mirrors
    cases mirrors with
    | @done last asks asked =>
      have outcome : compilation.run (Scan.ofSource source).ending code = .ok engine.emitted := by
        rw [Compilation.run]
        split <;> simp_all
      rw [outcome]
      refine ⟨0, engine, last, .refl engine, stepped, asks, ?_⟩
      simp [looked, look?, reported, asked, token?_lookedAt]
  case case3 known compilation events look? looked fault went =>
    have mirrors := follows.mirrors
    rw [went] at mirrors
    generalize stepped : engine.step = step at mirrors
    cases mirrors with
    | @fail _ last asks asked =>
      have outcome : compilation.run (Scan.ofSource source).ending code = .error fault := by
        rw [Compilation.run]
        split <;> simp_all
      rw [outcome]
      refine ⟨0, engine, last, .refl engine, stepped, asks, ?_⟩
      simp [looked, look?, reported, asked, token?_lookedAt]

end

end Engine

/-- A rule that has been read has taken tokens, unless it may match nothing and has left all tokens.
No loop comes back to its start without a token. So the engine comes to the outcome of a source
after a number of steps that the length of the source bounds; and up to there it has asked for the
tokens that are reported as looked at, and for nothing behind a fault. -/
theorem compilation_progresses_and_ends (source : String) :
    (∀ (rule : Rule) (ending : Except Fault Location) (tokens left : List Token),
      rule.Reads ending tokens left →
        left.length < tokens.length ∨ rule = .statements ∧ left = tokens) ∧
    (∀ (part again : Pending) (ending : Except Fault Location) (tokens left : List Token)
        (rest : List Pending) (unit after : ClassUnit), part.Again again →
      Compilation.Advances ending ⟨tokens, part :: rest, unit⟩ ⟨left, again :: rest, after⟩ →
        left.length < tokens.length) ∧
    ∃ count final last, Engine.Steps count (.ofSource source) final ∧
      count ≤ 12 * source.length + 5 ∧ final.step = .stop (compile source) last ∧
      last.AsksUpToFault source (compile source) ∧
      (compileEvents source).filterMap Event.token? = last.tokens := by
  refine ⟨fun rule ending tokens left reads => reads.takes,
    fun part again ending tokens left rest unit after repeats => repeats.takes, ?_⟩
  -- The engine and the compilation start together, with nothing asked and nothing reported.
  have emitted : (#[] : Array Command).toList = (Engine.ofSource source).emitted := rfl
  have reported : (#[] : Array Event).toList.filterMap Event.token? =
      (Engine.ofSource source).tokens := rfl
  obtain ⟨count, final, last, steps, stops, asks, tokens⟩ :=
    (Engine.follows_start source).exists_run emitted reported
  have bound := steps.count_le
  rw [Engine.potential_ofSource] at bound
  exact ⟨count, final, last, steps, by omega, stops, asks, tokens⟩

/-- A number is read as a term, and a class with a malformed name ends there. -/
theorem number_is_read_and_malformed_class_ends :
    Rule.term.Reads (.ok .start) [⟨.integer 7, ⟨0, 1, .start⟩⟩] [] ∧
      ([] : List Token).length < [Token.mk (.integer 7) ⟨0, 1, .start⟩].length ∧
      compile "class 1a" = .error ⟨⟨1, 7⟩, .lexical (.startsWithDigit "1" 'a')⟩ ∧
      ∃ count final last, Engine.Steps count (.ofSource "class 1a") final ∧
        final.step = .stop (.error ⟨⟨1, 7⟩, .lexical (.startsWithDigit "1" 'a')⟩) last := by
  have reads : Rule.term.Reads (.ok .start) [⟨.integer 7, ⟨0, 1, .start⟩⟩] [] :=
    ⟨[], {}, {}, some ⟨.integer 7, ⟨0, 1, .start⟩⟩, _, _, _, rfl, .refl _⟩
  have compiled : compile "class 1a" =
      .error ⟨⟨1, 7⟩, .lexical (.startsWithDigit "1" 'a')⟩ := by decide +kernel
  obtain ⟨rules, -, count, final, last, steps, -, stops, -⟩ :=
    compilation_progresses_and_ends "class 1a"
  rw [compiled] at stops
  refine ⟨reads, ?_, compiled, count, final, last, steps, stops⟩
  rcases rules _ _ _ _ reads with fewer | ⟨other, -⟩
  · exact fewer
  · cases other

end JackCompiler
