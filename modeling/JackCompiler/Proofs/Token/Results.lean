import Mathlib.Data.List.DropRight
import JackCompiler.Proofs.Token.Decomposition

/-! The results of asking for one token after another, also behind malformed ones. -/

namespace JackCompiler

namespace Lexer

/-- The place after some calls for the next token. -/
def after (lexer : Lexer) : Nat → Lexer
  | 0 => lexer
  | count + 1 => (lexer.after count).next.2

/-- What a call for the next token gives when some calls were made before it. -/
def result (lexer : Lexer) (count : Nat) : Except Fault (Option Token) :=
  (lexer.after count).next.1

/-- The calls behind the first one are made from the place to which it leads. -/
theorem after_succ (lexer : Lexer) (count : Nat) :
    lexer.after (count + 1) = lexer.next.2.after count := by
  -- The last call is split off on both sides, and the calls before it are those of one less.
  induction count with
  | zero => rfl
  | succ count ih => rw [after, ih, after]

/-- Calls one after another lead on from where the first ones lead. -/
theorem after_add (lexer : Lexer) (count more : Nat) :
    lexer.after (count + more) = (lexer.after count).after more := by
  induction more with
  | zero => rfl
  | succ more ih => rw [← Nat.add_assoc, after, ih, after]

/-- The results behind the first one are those from the place to which it leads. -/
theorem result_succ (lexer : Lexer) (count : Nat) :
    lexer.result (count + 1) = lexer.next.2.result count := by
  rw [result, after_succ, result]

/-- The next result is nothing where only a gap is left, a token that the text holds behind a gap,
or the fault of what is malformed there. -/
theorem next_cases (lexer : Lexer) :
    (Separates lexer.rest [] ∧ lexer.next.1 = .ok none) ∨
    (∃ gap lexeme kind behind, lexer.rest = gap ++ (lexeme ++ behind) ∧
      Separates gap (lexeme ++ behind) ∧ Lexeme lexeme kind behind ∧
      lexer.next = (.ok (some (Piece.token lexer.position ⟨gap, lexeme, kind⟩)),
        ⟨lexer.position.past (gap ++ lexeme), behind⟩)) ∨
    ∃ gap behind fault, lexer.rest = gap ++ behind ∧ Separates gap behind ∧
      Malformed behind fault ∧
      lexer.next.1 = .error ⟨(lexer.position.past gap).location, .lexical fault⟩ := by
  -- What stands behind the longest gap decides.
  obtain ⟨position, rest⟩ := lexer
  obtain ⟨gap, behind, rfl, separates, stops⟩ := exists_gap rest
  by_cases empty : behind = []
  · subst empty
    rw [List.append_nil]
    exact .inl ⟨separates, next_nothing separates⟩
  rcases exists_lexeme empty stops with ⟨lexeme, kind, behind, rfl, lexed⟩ | ⟨fault, malformed⟩
  · exact .inr (.inl ⟨gap, lexeme, kind, behind, rfl, separates, lexed,
      next_token separates lexed⟩)
  · exact .inr (.inr ⟨gap, behind, fault, rfl, separates, malformed,
      next_malformed separates malformed⟩)

/-- A token that is next stands in the text behind a gap, and reading goes on behind it. -/
theorem exists_lexeme_of_next {lexer : Lexer} {token : Token}
    (read : lexer.next.1 = .ok (some token)) :
    ∃ gap lexeme kind behind, lexer.rest = gap ++ (lexeme ++ behind) ∧
      Separates gap (lexeme ++ behind) ∧ Lexeme lexeme kind behind ∧
      token = Piece.token lexer.position ⟨gap, lexeme, kind⟩ ∧
      lexer.next.2 = ⟨lexer.position.past (gap ++ lexeme), behind⟩ := by
  rcases lexer.next_cases with ⟨-, nothing⟩ | ⟨gap, lexeme, kind, behind, text, separates, lexed,
    found⟩ | ⟨gap, behind, fault, -, -, -, fails⟩
  · rw [nothing] at read
    cases read
  · rw [found] at read
    exact ⟨gap, lexeme, kind, behind, text, separates, lexed,
      (Option.some.inj (Except.ok.inj read)).symm, by rw [found]⟩
  · rw [fails] at read
    cases read

/-- Where no token is left, only a gap is. -/
theorem separates_of_next {lexer : Lexer} (ended : lexer.next.1 = .ok none) :
    Separates lexer.rest [] := by
  rcases lexer.next_cases with ⟨separates, -⟩ | ⟨gap, lexeme, kind, behind, -, -, -, found⟩ |
    ⟨gap, behind, fault, -, -, -, fails⟩
  · exact separates
  · rw [found] at ended
    cases ended
  · rw [fails] at ended
    cases ended

/-- At the end of the text there is nothing, however often one asks. -/
theorem result_of_empty (position : Position) (count : Nat) :
    result ⟨position, []⟩ count = .ok none := by
  have stays : after ⟨position, []⟩ count = ⟨position, []⟩ := by
    induction count with
    | zero => rfl
    | succ count ih =>
      rw [after, ih]
      rfl
  rw [result, stays]
  rfl

/-- Where no token is left, none is found later either. -/
theorem result_of_ended {lexer : Lexer} (ended : lexer.next.1 = .ok none) (count : Nat) :
    lexer.result count = .ok none := by
  cases count with
  | zero => exact ended
  | succ count =>
    -- The first call leaves the gap at the end of the text behind.
    obtain ⟨position, gap⟩ := lexer
    have start : skipGap ⟨position, gap ++ []⟩ = ⟨position.past gap, []⟩ :=
      skipGap_eq (separates_of_next ended) nofun
    rw [List.append_nil] at start
    have behind : (next ⟨position, gap⟩).2 = ⟨position.past gap, []⟩ := by
      simp only [next, start]
    rw [result_succ, behind, result_of_empty]

/-- Reading fails only for a lexical cause. -/
theorem cause_of_result {lexer : Lexer} {count : Nat} {fault : Fault}
    (fails : lexer.result count = .error fault) : ∃ cause, fault.cause = .lexical cause := by
  rw [result] at fails
  rcases (lexer.after count).next_cases with ⟨-, nothing⟩ | ⟨_, _, _, _, -, -, -, found⟩ |
    ⟨_, _, cause, -, -, -, refused⟩
  · rw [nothing] at fails
    cases fails
  · rw [found] at fails
    cases fails
  · rw [refused] at fails
    cases fails
    exact ⟨cause, rfl⟩

/-- The place is reached from the start of a source over the given characters. -/
structure StandsBehind (lexer : Lexer) (source : String) (before : List Char) : Prop where
  position : lexer.position = Position.start.past before
  text : source.toList = before ++ lexer.rest

variable {lexer : Lexer} {source : String} {before : List Char}

/-- Characters that are skipped are left behind. -/
theorem StandsBehind.skip (stands : lexer.StandsBehind source before) (count : Nat) :
    (lexer.skip count).StandsBehind source (before ++ lexer.rest.take count) := by
  -- Each character that is skipped moves from the text ahead to the text before.
  induction count generalizing lexer before with
  | zero =>
    rw [List.take_zero, List.append_nil]
    cases lexer
    exact stands
  | succ count ih =>
    obtain ⟨position, _ | ⟨c, rest⟩⟩ := lexer
    · rw [List.take_nil, List.append_nil]
      exact stands
    · rw [List.take_succ_cons, List.append_cons]
      refine @ih ⟨position.advance c, rest⟩ _ ⟨?_, ?_⟩
      · rw [Position.past_append, ← stands.position]
        rfl
      · rw [stands.text, List.append_assoc]
        rfl

/-- A call for the next token leaves characters behind, whatever it gives. -/
theorem StandsBehind.next (stands : lexer.StandsBehind source before) :
    ∃ passed, lexer.next.2.StandsBehind source (before ++ passed) := by
  -- The gap is skipped first, and what is read behind it is skipped next.
  obtain ⟨passed, gap⟩ : ∃ passed, lexer.skipGap.StandsBehind source (before ++ passed) :=
    ⟨_, stands.skip _⟩
  have read : ∀ count, ∃ more, (lexer.skipGap.skip count).StandsBehind source (before ++ more) := by
    intro count
    refine ⟨passed ++ lexer.skipGap.rest.take count, ?_⟩
    rw [← List.append_assoc]
    exact gap.skip count
  simp only [Lexer.next]
  split
  · exact ⟨passed, gap⟩
  · split <;> exact read _

/-- The start of a source has nothing before it. -/
theorem standsBehind_ofSource (source : String) : (ofSource source).StandsBehind source [] :=
  ⟨rfl, rfl⟩

/-- Calls for tokens leave characters behind, more with each call. -/
theorem StandsBehind.after (stands : lexer.StandsBehind source before) (count : Nat) :
    ∃ passed, (lexer.after count).StandsBehind source (before ++ passed) := by
  -- The induction is on the calls, each of which leads on from where the last one stopped.
  induction count with
  | zero => exact ⟨[], by rwa [List.append_nil]⟩
  | succ count ih =>
    obtain ⟨passed, reached⟩ := ih
    obtain ⟨more, further⟩ := reached.next
    exact ⟨passed ++ more, by rwa [← List.append_assoc]⟩

end Lexer

end JackCompiler
