import JackCompiler.Proofs.Token.Formed
import JackCompiler.Proofs.Token.Placement

/-! A scan holds the results of asking for tokens, up to the first one that is no token, and each of
its tokens stands on one line. -/

namespace JackCompiler

/-- A line feed is part of no token. -/
theorem Lexeme.kind_ne_newline {lexeme behind : List Char} {kind : TokenKind}
    (lexed : Lexeme lexeme kind behind) : kind ≠ .symbol '\n' := by
  -- A line feed starts a gap, and what starts a gap is read as one.
  rintro rfl
  cases lexed with
  | symbol _ _ _ gap => exact gap (.blank (by decide))

/-- What spells a token that can be written holds no line feed. -/
theorem TokenKind.SpelledBy.newline_not_mem {lexeme : List Char} {kind : TokenKind}
    (spelled : kind.SpelledBy lexeme) (formed : kind.Formed) (other : kind ≠ .symbol '\n') :
    '\n' ∉ lexeme := by
  -- Each kind has its own characters: digits, one symbol, letters, or what may stand in a string.
  intro member
  cases kind with
  | integer value => exact absurd (spelled.2.1 _ member) (by decide)
  | symbol c =>
    obtain rfl : lexeme = [c] := by simpa [text] using congrArg String.toList spelled
    exact other (by rw [List.mem_singleton.mp member])
  | keyword word =>
    obtain rfl : lexeme = word.text.toList := by simpa [text] using congrArg String.toList spelled
    revert member
    cases word <;> decide
  | identifier name =>
    obtain rfl : lexeme = name.toList := by simpa [text] using congrArg String.toList spelled
    obtain ⟨first, more, written, starts, inside⟩ := formed.word
    rw [written, List.mem_cons] at member
    rcases member with rfl | member
    · exact absurd starts (by decide)
    · exact absurd (inside _ member) (by decide)
  | string body =>
    obtain rfl : lexeme = '"' :: (body.toList ++ ['"']) := by
      simpa [text] using congrArg String.toList spelled
    have inside : '\n' ∈ body.toList := by simpa using member
    exact (formed.2 _ inside).2.1 rfl

/-- A text takes as many bytes as it has characters exactly when each of them takes one byte. -/
theorem byteCount_eq_length_iff (text : List Char) :
    byteCount text = text.length ↔ ∀ c ∈ text, c.toNat < 128 := by
  induction text with
  | nil => exact ⟨fun _ _ => nofun, fun _ => rfl⟩
  | cons c text ih =>
    -- No character takes less than a byte, so that none can make up for one that takes more.
    have size := c.utf8Size_pos
    have more := length_le_byteCount text
    have single : c.utf8Size = 1 ↔ c.toNat < 128 := by
      rw [Char.utf8Size_eq_one_iff, UInt32.le_iff_toNat_le]
      exact Nat.lt_succ_iff.symm
    rw [← List.singleton_append, byteCount_append, byteCount_singleton, List.singleton_append,
      List.forall_mem_cons, ← ih, ← single, List.length_cons]
    omega

namespace Token.StandsIn

variable {token : Token} {source : String} {before lexeme behind : List Char}

/-- The place that is reported behind a token on one line is the one where it ends exactly when all
its characters are encoded as single bytes. -/
theorem endLocation_eq_iff (stands : token.StandsIn source before lexeme behind)
    (oneLine : '\n' ∉ lexeme) :
    token.endLocation = (Position.start.past (before ++ lexeme)).location ↔
      ∀ c ∈ lexeme, c.toNat < 128 := by
  -- The characters of the token make the last line longer by as many columns.
  have inside : ∀ c ∈ lexeme.reverse, decide (c ≠ '\n') = true := by
    intro c member
    have other : c ≠ '\n' := by
      rintro rfl
      exact oneLine (List.mem_reverse.mp member)
    exact decide_eq_true other
  have line : (before ++ lexeme).rtakeWhile (· ≠ '\n') =
      before.rtakeWhile (· ≠ '\n') ++ lexeme := by
    simp only [List.rtakeWhile, List.reverse_append, List.takeWhile_append_of_pos inside,
      List.reverse_reverse]
  -- The reported column is further by the bytes, and the place by the characters.
  rw [Position.past_start, Token.endLocation, stands.line, stands.column, stands.size, line,
    List.count_append, List.count_eq_zero.mpr oneLine, List.length_append,
    ← byteCount_eq_length_iff]
  simp only [Nat.add_zero, Location.mk.injEq, true_and]
  omega

end Token.StandsIn

namespace Scan

/-- What stands behind the tokens of a scan: its fault, or nothing. -/
def last (scan : Scan) : Except Fault (Option Token) :=
  match scan.fault? with
  | some fault => .error fault
  | none => .ok none

/-- The tokens and what stands behind them are the first results from a place on. -/
structure Holds (scan : Scan) (lexer : Lexer) : Prop where
  token : ∀ count (within : count < scan.tokens.length),
    lexer.result count = .ok (some scan.tokens[count])
  last : lexer.result scan.tokens.length = scan.last

/-- A scan from a place on holds the results from there, behind the tokens found before. -/
theorem exists_holds (lexer : Lexer) (found : Array Token) :
    ∃ scan : Scan, ofLexer lexer found = ⟨found.toList ++ scan.tokens, scan.fault?⟩ ∧
      scan.Holds lexer := by
  -- Each token that is read is the first result, and the others are those behind it.
  fun_induction ofLexer lexer found with
  | case1 lexer found token after read ih =>
    obtain ⟨scan, same, holds⟩ := ih
    refine ⟨⟨token :: scan.tokens, scan.fault?⟩, by simp [same], ?_, ?_⟩
    · intro count within
      cases count with
      | zero => exact congrArg Prod.fst read
      | succ count =>
        rw [Lexer.result_succ, read]
        exact holds.token count (Nat.lt_of_succ_lt_succ within)
    · rw [List.length_cons, Lexer.result_succ, read]
      exact holds.last
  | case2 lexer found after read =>
    exact ⟨⟨[], none⟩, by simp, nofun, congrArg Prod.fst read⟩
  | case3 lexer found fault after read =>
    exact ⟨⟨[], some fault⟩, by simp, nofun, congrArg Prod.fst read⟩

/-- The scan of a source holds the first results of the source. -/
theorem holds_ofSource (source : String) : (ofSource source).Holds (.ofSource source) := by
  obtain ⟨scan, same, holds⟩ := exists_holds (.ofSource source) #[]
  rw [ofSource, same]
  exact holds

variable {scan : Scan} {lexer : Lexer} {source : String} {token : Token} {fault : Fault}

/-- The first token of a scan is given first, and the others behind it. -/
theorem Holds.next {tokens : List Token} {fault? : Option Fault}
    (holds : Holds ⟨token :: tokens, fault?⟩ lexer) :
    lexer.next.1 = .ok (some token) ∧ Holds ⟨tokens, fault?⟩ lexer.next.2 := by
  -- The results from the next place on are those from this one, counted by one less.
  refine ⟨holds.token 0 (Nat.zero_lt_succ _), fun count within => ?_, ?_⟩
  · rw [← Lexer.result_succ]
    exact holds.token (count + 1) (Nat.succ_lt_succ within)
  · rw [← Lexer.result_succ]
    exact holds.last

/-- Behind the last token of a scan without a fault nothing is given, now and later. -/
theorem Holds.ended (holds : Holds ⟨[], none⟩ lexer) :
    lexer.next.1 = .ok none ∧ Holds ⟨[], none⟩ lexer.next.2 := by
  have ended : lexer.next.1 = .ok none := holds.last
  refine ⟨ended, nofun, ?_⟩
  exact (Lexer.result_succ lexer 0).symm.trans (Lexer.result_of_ended ended 1)

/-- A fault in a scan is the result behind its tokens, for a lexical cause. -/
theorem Holds.result_of_fault (holds : scan.Holds lexer) (failed : scan.fault? = some fault) :
    lexer.result scan.tokens.length = .error fault ∧ ∃ cause, fault.cause = .lexical cause := by
  have last := holds.last
  rw [Scan.last, failed] at last
  exact ⟨last, Lexer.cause_of_result last⟩

/-- Results that are faults are only given where the scan has a fault. -/
theorem Holds.exists_fault (holds : scan.Holds lexer) {count : Nat}
    (failed : lexer.result count = .error fault) : ∃ first, scan.fault? = some first := by
  cases last : scan.fault? with
  | some first => exact ⟨first, rfl⟩
  | none =>
    -- Otherwise the results are the tokens of the scan, and nothing behind them.
    rcases Nat.lt_or_ge count scan.tokens.length with within | behind
    · rw [holds.token count within] at failed
      cases failed
    · have ended := holds.last
      rw [Scan.last, last] at ended
      have stays := Lexer.result_of_ended ended (count - scan.tokens.length)
      rw [Lexer.result, ← Lexer.after_add, Nat.add_sub_cancel' behind] at stays
      cases stays.symm.trans failed

/-- A source ends with a fault exactly when its scan has that fault. -/
theorem ending_eq_error_iff : scan.ending = .error fault ↔ scan.fault? = some fault := by
  unfold ending
  cases scan.fault? <;> simp

/-- Every token that is given stands where its span says, on one line. -/
theorem exists_standsIn {count : Nat}
    (given : (Lexer.ofSource source).result count = .ok (some token)) :
    ∃ before lexeme behind, token.StandsIn source before lexeme behind ∧ '\n' ∉ lexeme := by
  -- What spells a token has a line feed only if the token is one, and no token is.
  obtain ⟨passed, stands⟩ := (Lexer.standsBehind_ofSource source).after count
  obtain ⟨gap, lexeme, behind, -, -, placed, -⟩ := stands.exists_token given
  obtain ⟨_, _, kind, _, -, -, lexed, same, -⟩ := Lexer.exists_lexeme_of_next given
  have other : token.kind ≠ .symbol '\n' := by
    rw [same]
    exact lexed.kind_ne_newline
  exact ⟨_, lexeme, behind, placed,
    placed.spelled.newline_not_mem (Lexer.formed_of_result given) other⟩

end Scan

end JackCompiler
