import JackCompiler.Proofs.Token.Results

/-! Reading that goes on behind faults comes to the end of the source, or stands still at one digit
in front of a letter. -/

namespace JackCompiler

/-- Behind a gap stands a run of digits that a letter follows. -/
def MeetsLetter (text digits : List Char) (letter : Char) : Prop :=
  ∃ gap behind, text = gap ++ (digits ++ letter :: behind) ∧
    Separates gap (digits ++ letter :: behind) ∧ digits ≠ [] ∧
    (∀ c ∈ digits, c.isDigit = true) ∧ letter.isAlpha = true

namespace Reading

variable {first letter : Char} {more behind : List Char}

/-- Of a run of digits that a letter follows, all but one are done with. -/
theorem number_before_letter (digits : ∀ c ∈ first :: more, c.isDigit = true)
    (follows : letter.isAlpha = true) :
    ofChars first (more ++ letter :: behind) =
      ⟨.error (.startsWithDigit (String.ofList (first :: more)) letter), more.length⟩ := by
  -- A letter is no digit, so the run ends in front of it.
  obtain ⟨digit, others⟩ := List.forall_mem_cons.mp digits
  have ends : ∀ c ∈ (letter :: behind).head?, c.isDigit = false := by
    simpa using isDigit_of_startsWord (by simp [startsWord, follows])
  obtain ⟨taken, dropped⟩ := takeWhile_run others ends
  rw [ofChars_number digit]
  simp [number, taken, dropped, Option.filter, follows]

/-- A number that is too large has more than one digit, and all but one are done with. -/
theorem large_number_length_pos (number : IsNumber (first :: more) behind)
    (large : 32767 < Nat.ofDigitChars 10 (first :: more) 0) :
    0 < (ofChars first (more ++ behind)).length := by
  have digit := number.inside first List.mem_cons_self
  rw [ofChars_number digit, number_run number,
    operandValue?_eq_none large (Nat.zero_le _)]
  refine List.length_pos_iff.mpr ?_
  rintro rfl
  -- A single digit is a small number.
  have bounds := code_of_isDigit digit
  simp [Nat.ofDigitChars_cons] at large
  omega

end Reading

/-- Something malformed is done with in part, or it is a single digit that a letter follows. -/
theorem Malformed.length_pos_or {first : Char} {rest : List Char} {fault : LexicalFault}
    (malformed : Malformed (first :: rest) fault) :
    0 < (Reading.ofChars first rest).length ∨
      ∃ letter behind, rest = letter :: behind ∧ first.isDigit = true ∧ letter.isAlpha = true := by
  generalize same : first :: rest = text at malformed
  cases malformed with
  | unterminatedString | unrepresentable | longString =>
    obtain ⟨rfl, rfl⟩ := List.cons.inj same
    exact .inl (Reading.string_length_pos _)
  | @startsWithDigit digits behind letter nonempty inside follows =>
    obtain ⟨digit, more, rfl⟩ := List.exists_cons_of_ne_nil nonempty
    obtain ⟨rfl, rfl⟩ : first = digit ∧ rest = more ++ letter :: behind := List.cons.inj same
    rw [Reading.number_before_letter inside follows]
    -- Without further digits, the letter stands behind the first one.
    cases more with
    | nil => exact .inr ⟨letter, behind, rfl, inside _ List.mem_cons_self, follows⟩
    | cons next more => exact .inl (Nat.zero_lt_succ _)
  | @integerRange digits behind number large =>
    obtain ⟨digit, more, rfl⟩ := List.exists_cons_of_ne_nil number.nonempty
    obtain ⟨rfl, rfl⟩ := List.cons.inj same
    exact .inl (Reading.large_number_length_pos number large)

namespace Lexer

variable {lexer : Lexer} {position : Position} {gap init behind : List Char} {last letter : Char}

/-- Reading stops at the last digit of a run that a letter follows. -/
theorem next_digits (separates : Separates gap (init ++ last :: letter :: behind))
    (inside : ∀ c ∈ init ++ [last], c.isDigit = true) (follows : letter.isAlpha = true) :
    next ⟨position, gap ++ (init ++ last :: letter :: behind)⟩ =
      (.error ⟨(position.past gap).location,
        .lexical (.startsWithDigit (String.ofList (init ++ [last])) letter)⟩,
        ⟨position.past (gap ++ init), last :: letter :: behind⟩) := by
  -- The first digit of the run is the last one only if nothing stands before that.
  obtain ⟨first, more, digits⟩ : ∃ first more, init ++ [last] = first :: more :=
    List.exists_cons_of_ne_nil (by simp)
  have count : more.length = init.length := by
    simpa using (congrArg List.length digits).symm
  have text : init ++ last :: letter :: behind = first :: (more ++ letter :: behind) := by
    rw [← List.cons_append, ← digits, List.append_cons]
  have stops : ¬StartsGap (init ++ last :: letter :: behind) := by
    rw [text]
    exact not_startsGap_cons (.inr (.inl (inside first (digits ▸ List.mem_cons_self))))
  have start : skipGap ⟨position, _⟩ = _ := skipGap_eq separates stops
  have reads : Reading.ofChars first (more ++ letter :: behind) = _ :=
    Reading.number_before_letter (digits ▸ inside) follows
  have after : skip init.length ⟨position.past gap, init ++ last :: letter :: behind⟩ = _ :=
    skip_append init
  rw [text] at start after ⊢
  simp only [next, start, reads, count, after, digits, Position.past_append]

/-- The next result is nothing, or text is taken for it, or reading stands in front of a digit that
a letter follows. -/
theorem next_progress (lexer : Lexer) :
    lexer.next.1 = .ok none ∨
    (lexer.next.1 ≠ .ok none ∧ lexer.next.2.rest.length < lexer.rest.length) ∨
    ∃ digit letter, MeetsLetter lexer.rest [digit] letter := by
  rcases lexer.next_cases with ⟨-, nothing⟩ | ⟨gap, lexeme, kind, behind, -, -, -, found⟩ |
    ⟨gap, behind, fault, text, separates, malformed, fails⟩
  · exact .inl nothing
  · refine .inr (.inl ⟨by rw [found]; nofun, ?_⟩)
    rw [found]
    exact length_next_lt found
  · obtain ⟨first, rest, rfl, -⟩ := malformed.ofChars
    rcases malformed.length_pos_or with positive | ⟨letter, more, rfl, digit, follows⟩
    · refine .inr (.inl ⟨by rw [fails]; nofun, ?_⟩)
      -- Behind the gap, at least the first character is taken.
      obtain ⟨position, whole⟩ := lexer
      obtain rfl : whole = gap ++ first :: rest := text
      have start : skipGap ⟨position, _⟩ = _ := skipGap_eq separates malformed.not_startsGap
      have after : (next ⟨position, gap ++ first :: rest⟩).2.rest =
          (first :: rest).drop (Reading.ofChars first rest).length := by
        simp only [next, start]
        split <;> exact rest_skip _ _
      rw [after, List.length_drop, List.length_append, List.length_cons]
      omega
    · exact .inr (.inr ⟨first, letter, gap, more, text, separates, List.cons_ne_nil _ _,
        by simpa using digit, follows⟩)

/-- Calls for tokens take text each, until nothing is left to give or reading stands in front of a
digit that a letter follows. -/
theorem exists_halt (lexer : Lexer) :
    ∃ count ≤ lexer.rest.length,
      (∀ earlier < count, lexer.result earlier ≠ .ok none ∧
        (lexer.after (earlier + 1)).rest.length < (lexer.after earlier).rest.length) ∧
      (lexer.result count = .ok none ∨
        ∃ digit letter, MeetsLetter (lexer.after count).rest [digit] letter) := by
  -- The text that is left gets shorter with each call that is not the last one.
  rcases lexer.next_progress with nothing | ⟨gives, shorter⟩ | stuck
  · exact ⟨0, Nat.zero_le _, nofun, .inl nothing⟩
  · obtain ⟨count, bounded, moves, halts⟩ := exists_halt lexer.next.2
    refine ⟨count + 1, by omega, fun earlier order => ?_, ?_⟩
    · cases earlier with
      | zero => exact ⟨gives, shorter⟩
      | succ earlier =>
        rw [result_succ, after_succ, after_succ lexer]
        exact moves earlier (Nat.lt_of_succ_lt_succ order)
    · rw [result_succ, after_succ]
      exact halts
  · exact ⟨0, Nat.zero_le _, nofun, .inr stuck⟩
termination_by lexer.rest.length

/-- At a digit that a letter follows, every call gives the same fault. -/
theorem result_at_digit (digit : last.isDigit = true) (follows : letter.isAlpha = true)
    (count : Nat) :
    result ⟨position, last :: letter :: behind⟩ count =
      .error ⟨position.location, .lexical (.startsWithDigit (String.ofList [last]) letter)⟩ := by
  -- A single digit is the last of its run, so no call moves on.
  have fails : next ⟨position, [] ++ ([] ++ last :: letter :: behind)⟩ = _ :=
    next_digits (.nil _) (by simpa using digit) follows
  have stays : after ⟨position, last :: letter :: behind⟩ count =
      ⟨position, last :: letter :: behind⟩ := by
    induction count with
    | zero => rfl
    | succ count ih =>
      rw [after, ih]
      exact congrArg Prod.snd fails
  rw [result, stays]
  exact congrArg Prod.fst fails

/-- Where a digit that a letter follows stands behind a gap, every call gives the same fault. -/
theorem result_before_digit (separates : Separates gap (last :: letter :: behind))
    (digit : last.isDigit = true) (follows : letter.isAlpha = true) (count : Nat) :
    result ⟨position, gap ++ last :: letter :: behind⟩ count =
      .error ⟨(position.past gap).location,
        .lexical (.startsWithDigit (String.ofList [last]) letter)⟩ := by
  -- The first call skips the gap.
  have fails : next ⟨position, gap ++ ([] ++ last :: letter :: behind)⟩ = _ :=
    next_digits separates (by simpa using digit) follows
  rw [List.append_nil] at fails
  cases count with
  | zero => exact congrArg Prod.fst fails
  | succ count =>
    rw [result_succ, show (next ⟨position, gap ++ last :: letter :: behind⟩).2 = _ from
      congrArg Prod.snd fails]
    exact result_at_digit digit follows count

/-- Behind a call that meets a run of digits that a letter follows, no call gives nothing. -/
theorem exists_fault_of_meetsLetter {call : Nat} {digits : List Char}
    (meets : MeetsLetter (lexer.after call).rest digits letter) (later : Nat) :
    ∃ fault, lexer.result (call + 1 + later) = .error fault := by
  -- The call that meets the run leads to its last digit.
  obtain ⟨gap, behind, text, separates, nonempty, inside, follows⟩ := meets
  obtain ⟨init, last, rfl⟩ := (List.eq_nil_or_concat digits).resolve_left nonempty
  rw [List.concat_eq_append] at text separates inside
  rw [← List.append_cons] at text separates
  have reached : lexer.after (call + 1) =
      ⟨(lexer.after call).position.past (gap ++ init), last :: letter :: behind⟩ := by
    rw [after]
    generalize lexer.after call = current at text
    obtain ⟨position, whole⟩ := current
    obtain rfl : whole = gap ++ (init ++ last :: letter :: behind) := text
    rw [next_digits separates inside follows]
  have digit := inside last (by simp)
  have same : lexer.result (call + 1 + later) =
      result ⟨(lexer.after call).position.past (gap ++ init), last :: letter :: behind⟩ later := by
    rw [result, after_add, reached, result]
  exact ⟨_, same.trans (result_at_digit digit follows later)⟩

/-- A call moves on in its source, over at least one character. -/
def MovesOn (source : String) (call : Nat) : Prop :=
  ∃ before passed, passed ≠ [] ∧ ((ofSource source).after call).StandsBehind source before ∧
    ((ofSource source).after (call + 1)).StandsBehind source (before ++ passed)

/-- A call that leaves less of the text than there was moves on. -/
theorem movesOn_of_length_lt {source : String} {call : Nat}
    (shorter : ((ofSource source).after (call + 1)).rest.length <
      ((ofSource source).after call).rest.length) : MovesOn source call := by
  obtain ⟨before, stands⟩ := (standsBehind_ofSource source).after call
  obtain ⟨passed, further⟩ := stands.next
  refine ⟨_, passed, ?_, stands, further⟩
  -- If nothing were passed, as much would be left as before.
  rintro rfl
  have same := stands.text.symm.trans further.text
  rw [List.append_nil] at same
  rw [after, ← List.append_cancel_left same] at shorter
  exact Nat.lt_irrefl _ shorter

end Lexer

/-- Every call before the given one moves on and gives a token or a fault, and from that one on
every call gives the end of the source. -/
structure EndsAfter (source : String) (count : Nat) : Prop where
  moves : ∀ earlier < count, Lexer.MovesOn source earlier
  gives : ∀ earlier < count, (Lexer.ofSource source).result earlier ≠ .ok none
  ended : ∀ later ≥ count, (Lexer.ofSource source).result later = .ok none

/-- Every call before the given one moves on, and from that one on every call gives the fault that
the same digit of the source is followed by a letter. -/
structure RepeatsAfter (source : String) (count : Nat) (before : List Char) (digit letter : Char)
    (behind : List Char) : Prop where
  moves : ∀ earlier < count, Lexer.MovesOn source earlier
  text : source.toList = before ++ digit :: letter :: behind
  isDigit : digit.isDigit = true
  isLetter : letter.isAlpha = true
  repeated : ∀ later ≥ count, (Lexer.ofSource source).result later =
    .error ⟨(Position.start.past before).location,
      .lexical (.startsWithDigit (String.ofList [digit]) letter)⟩

/-- Within as many calls as a source has characters, reading comes to the end of the source. -/
def ReadsToEnd (source : String) : Prop := ∃ count ≤ source.length, EndsAfter source count

/-- Within as many calls as a source has characters, reading comes to stand still at a digit. -/
def StandsStill (source : String) : Prop :=
  ∃ count ≤ source.length, ∃ before digit letter behind,
    RepeatsAfter source count before digit letter behind

/-- A source that is read to its end has no call that meets a run of digits before a letter. -/
theorem ReadsToEnd.not_meetsLetter {source : String} (ends : ReadsToEnd source) (call : Nat)
    (digits : List Char) (letter : Char) :
    ¬MeetsLetter ((Lexer.ofSource source).after call).rest digits letter := by
  -- Otherwise a later call would give both the end and a fault.
  intro meets
  obtain ⟨count, -, ends⟩ := ends
  obtain ⟨fault, failed⟩ := Lexer.exists_fault_of_meetsLetter meets count
  exact nomatch (ends.ended (call + 1 + count) (Nat.le_add_left _ _)).symm.trans failed

/-- Where reading comes to stand still, a call meets a run of digits that a letter follows. -/
theorem StandsStill.exists_meetsLetter {source : String} (still : StandsStill source) :
    ∃ call digits letter,
      MeetsLetter ((Lexer.ofSource source).after call).rest digits letter := by
  obtain ⟨call, -, before, digit, letter, behind, repeats⟩ := still
  -- The fault of the first call that stands still tells what stands there.
  have failed := repeats.repeated call (Nat.le_refl call)
  rw [Lexer.result] at failed
  rcases ((Lexer.ofSource source).after call).next_cases with ⟨-, nothing⟩ |
    ⟨_, _, _, _, -, -, -, found⟩ | ⟨gap, rest, fault, text, separates, malformed, fails⟩
  · cases nothing.symm.trans failed
  · rw [found] at failed
    cases failed
  · rw [fails] at failed
    obtain ⟨-, same⟩ := Fault.mk.inj (Except.error.inj failed)
    obtain rfl := Cause.lexical.inj same
    generalize reason : LexicalFault.startsWithDigit _ _ = fault at malformed
    cases malformed with
    | startsWithDigit nonempty inside follows =>
      exact ⟨call, _, _, gap, _, text, separates, nonempty, inside, follows⟩
    | _ => cases reason

/-- Reading comes to the end of a source, or it comes to stand still. -/
theorem readsToEnd_or_standsStill (source : String) :
    ReadsToEnd source ∨ StandsStill source := by
  obtain ⟨count, within, moves, halts⟩ := (Lexer.ofSource source).exists_halt
  have bounded : count ≤ source.length := by rwa [← String.length_toList]
  have moved : ∀ earlier < count, Lexer.MovesOn source earlier :=
    fun earlier order => Lexer.movesOn_of_length_lt (moves earlier order).2
  -- Calls behind the last one that moves are calls from the place that it leads to.
  have further : ∀ later ≥ count, (Lexer.ofSource source).result later =
      ((Lexer.ofSource source).after count).result (later - count) := by
    intro later order
    rw [Lexer.result, Lexer.result, ← Lexer.after_add, Nat.add_sub_cancel' order]
  rcases halts with nothing | ⟨digit, letter, gap, behind, rest, separates, -, inside, follows⟩
  · refine .inl ⟨count, bounded, moved, fun earlier order => (moves earlier order).1, ?_⟩
    intro later order
    rw [further later order]
    exact Lexer.result_of_ended nothing _
  · obtain ⟨passed, stands⟩ := (Lexer.standsBehind_ofSource source).after count
    refine .inr ⟨count, bounded, passed ++ gap, digit, letter, behind, moved, ?_,
      inside digit List.mem_cons_self, follows, ?_⟩
    · rw [stands.text, rest]
      simp
    · intro later order
      rw [further later order, Position.past_append]
      have position := stands.position
      generalize (Lexer.ofSource source).after count = current at rest position
      obtain ⟨place, whole⟩ := current
      obtain rfl : whole = gap ++ digit :: letter :: behind := rest
      obtain rfl : place = Position.start.past passed := position
      exact Lexer.result_before_digit separates (inside digit List.mem_cons_self) follows _

/-- However often the next token of a source is asked for, also behind faults, one of two things
happens within as many calls as the source has characters, and never both: from some call on every
call gives the end of the source, or from some call on every call gives the same fault at the same
digit. The latter happens exactly when a call meets a run of digits, behind a gap, that a letter
follows. All calls before move on over at least one character each. -/
theorem reading_ends_or_repeats (source : String) :
    (ReadsToEnd source ∨ StandsStill source) ∧ ¬(ReadsToEnd source ∧ StandsStill source) ∧
    (StandsStill source ↔ ∃ call digits letter,
      MeetsLetter ((Lexer.ofSource source).after call).rest digits letter) := by
  have either := readsToEnd_or_standsStill source
  refine ⟨either, ?_, StandsStill.exists_meetsLetter, ?_⟩
  · rintro ⟨ends, still⟩
    obtain ⟨call, digits, letter, meets⟩ := still.exists_meetsLetter
    exact ends.not_meetsLetter call digits letter meets
  · rintro ⟨call, digits, letter, meets⟩
    exact either.resolve_left fun ends => ends.not_meetsLetter call digits letter meets

/-- Two faults are reported before reading stands still at the last digit. -/
example : (List.range 4).map (Lexer.ofSource "\"a\n12b").result =
    [.error ⟨⟨1, 1⟩, .lexical .unterminatedString⟩,
      .error ⟨⟨2, 1⟩, .lexical (.startsWithDigit "12" 'b')⟩,
      .error ⟨⟨2, 2⟩, .lexical (.startsWithDigit "2" 'b')⟩,
      .error ⟨⟨2, 2⟩, .lexical (.startsWithDigit "2" 'b')⟩] := by
  cbv

end JackCompiler
