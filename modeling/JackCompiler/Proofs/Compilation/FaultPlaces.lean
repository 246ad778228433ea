import JackCompiler.Proofs.Compilation.Faults
import JackCompiler.Proofs.Token.Scanned

/-! Where the faults of a compilation are reported: at tokens, at what is malformed or at the
end. -/

namespace JackCompiler

namespace Compilation

/-- Every place that a pending part remembers is the place of one of the tokens. -/
def Remembers (tokens : List Token) (pending : List Pending) : Prop :=
  ∀ part ∈ pending, ∀ place, part.place? = some place → ∃ token ∈ tokens, token.location = place

section

variable {ending : Except Fault Location} {first next last : Compilation} {taken? : Option Token}
  {code : List Command} {tokens : List Token}

/-- A step remembers the token that it takes, or what was remembered before it. -/
theorem remembers_of_step (went : first.step ending = .go taken? code next)
    (unread : first.tokens ⊆ tokens) (remembers : Remembers tokens first.pending) :
    next.tokens ⊆ tokens ∧ Remembers tokens next.pending := by
  obtain ⟨part, rest, move, pending, -, after, -, taken | left⟩ := step_cases went
  · -- What the taken token brings remembers its place, or what was remembered before.
    obtain ⟨token, -, split, taken⟩ := taken
    rw [split, List.cons_subset] at unread
    rw [pending, Remembers, List.forall_mem_cons] at remembers
    refine ⟨unread.2, ?_⟩
    rw [after]
    intro behind member place found
    rcases List.mem_append.mp member with brought | old
    · rcases Pending.reportsAt_of_take taken behind brought place found with rfl | known
      · exact ⟨token, unread.1, rfl⟩
      · exact remembers.1 place known
    · exact remembers.2 behind old place found
  · -- Without a token nothing new can be remembered.
    obtain ⟨-, same, left⟩ := left
    rw [pending, Remembers, List.forall_mem_cons] at remembers
    refine ⟨same ▸ unread, ?_⟩
    rw [after]
    intro behind member place found
    rcases List.mem_append.mp member with brought | old
    · exact remembers.1 place (Pending.place?_of_leave left behind brought place found)
    · exact remembers.2 behind old place found

/-- Steps remember no places but those of tokens of the source. -/
theorem Steps.remembers (steps : Steps ending first code last) (unread : first.tokens ⊆ tokens)
    (remembers : Remembers tokens first.pending) :
    last.tokens ⊆ tokens ∧ Remembers tokens last.pending := by
  -- The tokens to come are among those of the source all along, so each step finds its place there.
  induction steps with
  | refl compilation => exact ⟨unread, remembers⟩
  | head went _ ih =>
    obtain ⟨unread, remembers⟩ := remembers_of_step went unread remembers
    exact ih unread remembers

/-- Nothing is remembered at the start of a class. -/
theorem remembers_start : Remembers tokens (start tokens).pending := by
  simp [Remembers, start, Pending.place?]

end

/-- A fault of a compilation is that of its source, or it names one of the tokens, or it is reported
at the end of a source without fault. -/
theorem fault_cases {ending : Except Fault Location} {tokens : List Token} {fault : Fault}
    (failed : (start tokens).run ending #[] = .error fault) :
    ending = .error fault ∨
      (∃ expected, ∃ token ∈ tokens,
        fault = ⟨token.location, .syntactic (.unexpected expected token.kind)⟩) ∨
      (∃ cause, ∃ token ∈ tokens, fault = ⟨token.location, .semantic cause⟩) ∨
      ∃ location, ending = .ok location ∧ fault = ⟨location, .syntactic .unexpectedEnd⟩ := by
  obtain ⟨code, last, steps, failing⟩ := run_eq_error_iff.mp failed
  obtain ⟨unread, remembers⟩ := steps.remembers (List.Subset.refl tokens) remembers_start
  -- A misuse is reported at the next token, or at one that was taken before it.
  cases fails_of_step failing with
  | unexpected _ _ => exact .inr (.inl ⟨_, _, unread List.mem_cons_self, rfl⟩)
  | surplus => exact .inr (.inl ⟨_, _, unread List.mem_cons_self, rfl⟩)
  | unexpectedEnd ended _ => exact .inr (.inr (.inr ⟨_, ended, rfl⟩))
  | malformed ended => exact .inl ended
  | misuse misused =>
    obtain ⟨place, _⟩ := fault
    obtain ⟨⟨cause, rfl⟩, rfl | known⟩ := misused
    · exact .inr (.inr (.inl ⟨cause, _, unread List.mem_cons_self, rfl⟩))
    · obtain ⟨token, member, rfl⟩ := remembers _ List.mem_cons_self place known
      exact .inr (.inr (.inl ⟨cause, token, member, rfl⟩))
  | unknown semantic known =>
    obtain ⟨place, _⟩ := fault
    obtain ⟨cause, rfl⟩ := semantic
    obtain ⟨token, member, rfl⟩ := remembers _ List.mem_cons_self place known
    exact .inr (.inr (.inl ⟨cause, token, member, rfl⟩))

end Compilation

/-- Asking a source for tokens gives tokens up to the given call. -/
def TokensUpTo (source : String) (count : Nat) : Prop :=
  ∀ earlier < count, ∃ token, (Lexer.ofSource source).result earlier = .ok (some token)

/-- Asking a source for tokens gives the fault before any other one. -/
def FirstFault (source : String) (fault : Fault) : Prop :=
  ∃ count, TokensUpTo source count ∧ (Lexer.ofSource source).result count = .error fault

/-- The place is that of a token which the source gives before any fault, and the token starts
there, by line and by character. -/
def TokenAt (source : String) (location : Location) (token : Token) : Prop :=
  ∃ count before lexeme behind, TokensUpTo source count ∧
    (Lexer.ofSource source).result count = .ok (some token) ∧
    token.StandsIn source before lexeme behind ∧ token.location = location

/-- Asking a source for tokens gives no fault, and the place is the one reported for its end: the
start of the source, when it has no tokens, or the place behind its last token, when the column
there counts bytes. -/
def EndAt (source : String) (location : Location) : Prop :=
  (∀ count fault, (Lexer.ofSource source).result count ≠ .error fault) ∧
    (((Lexer.ofSource source).result 0 = .ok none ∧ location = ⟨1, 1⟩) ∨
      ∃ count token before lexeme behind, TokensUpTo source count ∧
        (Lexer.ofSource source).result count = .ok (some token) ∧
        (Lexer.ofSource source).result (count + 1) = .ok none ∧
        token.StandsIn source before lexeme behind ∧
        location = ⟨token.location.line, token.location.column + token.span.size⟩ ∧
        (location = (Position.start.past (before ++ lexeme)).location ↔
          ∀ c ∈ lexeme, c.toNat < 128))

/-- A fault is reported where its cause stands in the source. -/
def Fault.PlacedIn (source : String) (fault : Fault) : Prop :=
  match fault.cause with
  | .lexical _ => FirstFault source fault
  | .syntactic (.unexpected _ found) => ∃ token, token.kind = found ∧
    TokenAt source fault.location token
  | .syntactic .unexpectedEnd => EndAt source fault.location
  | .semantic _ => ∃ token, TokenAt source fault.location token

section

variable {source : String} {token : Token} {fault : Fault} {location : Location}

/-- The tokens of a scan are given one after another. -/
theorem tokensUpTo_of_le {count : Nat} (within : count ≤ (Scan.ofSource source).tokens.length) :
    TokensUpTo source count :=
  fun earlier before =>
    ⟨_, (Scan.holds_ofSource source).token earlier (Nat.lt_of_lt_of_le before within)⟩

/-- A token of a scan starts where it is reported. -/
theorem tokenAt_of_mem (member : token ∈ (Scan.ofSource source).tokens) :
    TokenAt source token.location token := by
  -- The token is one of the results, and every result before it is a token as well.
  obtain ⟨count, within, rfl⟩ := List.getElem_of_mem member
  have given := (Scan.holds_ofSource source).token count within
  obtain ⟨before, lexeme, behind, stands, -⟩ := Scan.exists_standsIn given
  exact ⟨count, before, lexeme, behind, tokensUpTo_of_le within.le, given, stands, rfl⟩

/-- The fault of a scan is the first one of its source, and a lexical one. -/
theorem firstFault_of_scan (failed : (Scan.ofSource source).fault? = some fault) :
    FirstFault source fault ∧ ∃ cause, fault.cause = .lexical cause := by
  obtain ⟨given, lexical⟩ := (Scan.holds_ofSource source).result_of_fault failed
  exact ⟨⟨_, tokensUpTo_of_le (Nat.le_refl _), given⟩, lexical⟩

/-- The place reported for the end of a source is behind its last token. -/
theorem endAt_of_ending (ended : (Scan.ofSource source).ending = .ok location) :
    EndAt source location := by
  have holds := Scan.holds_ofSource source
  unfold Scan.ending at ended
  split at ended
  · cases ended
  rename_i sound
  have last := holds.last
  rw [Scan.last, sound] at last
  cases ended
  refine ⟨?_, ?_⟩
  · -- A scan without a fault holds everything that the source gives.
    intro count fault failed
    obtain ⟨first, broken⟩ := holds.exists_fault failed
    cases sound.symm.trans broken
  · rcases List.eq_nil_or_concat (Scan.ofSource source).tokens with none | ⟨tokens, token, split⟩
    · -- Without any token the end is reported at the start.
      rw [none] at last ⊢
      exact .inl ⟨last, rfl⟩
    · -- The last token is given just before there is nothing more to give.
      have count : (Scan.ofSource source).tokens.length = tokens.length + 1 := by simp [split]
      have within : tokens.length < (Scan.ofSource source).tokens.length := by omega
      have given := holds.token tokens.length within
      have found : (Scan.ofSource source).tokens[tokens.length] = token := by simp [split]
      rw [found] at given
      rw [count] at last
      obtain ⟨before, lexeme, behind, stands, oneLine⟩ := Scan.exists_standsIn given
      refine .inr ⟨tokens.length, token, before, lexeme, behind, tokensUpTo_of_le within.le, given,
        last, stands, ?_, ?_⟩
      · simp [split, Token.endLocation]
      · rw [← stands.endLocation_eq_iff oneLine]
        simp [split]

/-- Every report of a fault names the place of the fault. -/
theorem Fault.location?_diagnostic (fault : Fault) :
    fault.diagnostic.location? = some fault.location := by
  -- No kind of fault is reported without its place.
  obtain ⟨location, cause⟩ := fault
  cases cause <;> rfl

/-- A fault of a compilation is reported where its cause stands. -/
theorem placedIn_of_compile (failed : compile source = .error fault) : fault.PlacedIn source := by
  -- The ways to fail are the kinds of causes, where a malformed token is a fault of the ending.
  unfold compile at failed
  rcases Compilation.fault_cases failed with broken | ⟨expected, token, member, rfl⟩ |
    ⟨cause, token, member, rfl⟩ | ⟨location, ended, rfl⟩
  · obtain ⟨first, cause, lexical⟩ := firstFault_of_scan (Scan.ending_eq_error_iff.mp broken)
    rw [Fault.PlacedIn, lexical]
    exact first
  · exact ⟨token, rfl, tokenAt_of_mem member⟩
  · exact ⟨token, tokenAt_of_mem member⟩
  · exact endAt_of_ending ended

/-- A source with a malformed token is refused for it, or for a token before it. -/
theorem exists_fault_of_scan (broken : (Scan.ofSource source).fault? = some fault) :
    ∃ reported, compile source = .error reported ∧
      (reported = fault ∨ (∀ cause, reported.cause ≠ .lexical cause) ∧
        ∃ token, TokenAt source reported.location token) := by
  have ending : (Scan.ofSource source).ending = .error fault := Scan.ending_eq_error_iff.mpr broken
  cases compiled : compile source with
  | ok code =>
    -- An accepted source has no malformed token.
    obtain ⟨_, _, location, ended, -⟩ := Compilation.run_eq_ok_iff.mp compiled
    exact nomatch ending.symm.trans ended
  | error reported =>
    -- The malformed token takes the place of an end, so that no end can be reported.
    refine ⟨reported, rfl, ?_⟩
    rcases Compilation.fault_cases compiled with same | ⟨expected, token, member, rfl⟩ |
      ⟨cause, token, member, rfl⟩ | ⟨location, ended, -⟩
    · exact .inl (Except.error.inj (same.symm.trans ending))
    · exact .inr ⟨nofun, token, tokenAt_of_mem member⟩
    · exact .inr ⟨nofun, token, tokenAt_of_mem member⟩
    · exact nomatch ending.symm.trans ended

end

/-- Every fault of a source is reported where its cause stands: at the first fault of its tokens, at
a token before it, or at the end of a source whose tokens have no fault. A source whose tokens have
a fault is refused, for the first such fault or for a token before it. -/
theorem faults_are_placed (source : String) :
    (∀ fault, compile source = .error fault →
      fault.diagnostic.location? = some fault.location ∧ fault.PlacedIn source) ∧
    ∀ count fault, (Lexer.ofSource source).result count = .error fault →
      ∃ first reported, FirstFault source first ∧ compile source = .error reported ∧
        (reported = first ∨ (∀ cause, reported.cause ≠ .lexical cause) ∧
          ∃ token, TokenAt source reported.location token) := by
  constructor
  · intro fault failed
    exact ⟨fault.location?_diagnostic, placedIn_of_compile failed⟩
  · -- Whichever fault was found by asking, the scan has the first one.
    intro count fault failed
    obtain ⟨first, broken⟩ := (Scan.holds_ofSource source).exists_fault failed
    obtain ⟨reported, refused, placed⟩ := exists_fault_of_scan broken
    exact ⟨first, reported, (firstFault_of_scan broken).1, refused, placed⟩

/-- The end behind a string of three characters in four bytes is reported one column too far. -/
theorem end_behind_string_of_four_bytes :
    compile "class A\x7bfunction int f()\x7breturn \"é\"" =
        .error ⟨⟨1, 37⟩, .syntactic .unexpectedEnd⟩ ∧
      EndAt "class A\x7bfunction int f()\x7breturn \"é\"" ⟨1, 37⟩ := by
  have failed : compile "class A\x7bfunction int f()\x7breturn \"é\"" =
      .error ⟨⟨1, 37⟩, .syntactic .unexpectedEnd⟩ := by decide +kernel
  exact ⟨failed, ((faults_are_placed _).1 _ failed).2⟩

end JackCompiler
