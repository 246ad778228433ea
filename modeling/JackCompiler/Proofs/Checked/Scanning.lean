import JackCompiler.Proofs.Checked.Tokens
import JackCompiler.Proofs.Checked.Walk

/-! Reading what starts at a character never panics, and finds what the grammar of tokens says. -/

namespace JackCompiler

/-- A character that may stand in a string passes the tests of the reader. -/
theorem InString.tests {c : Char} (inside : InString c) :
    c ≠ '"' ∧ isLineBreak c = false ∧ ¬maxOperand < c.toNat := by
  obtain ⟨quote, newline, carriage, most⟩ := inside
  exact ⟨quote, by simp [isLineBreak, newline, carriage], Nat.not_lt.mpr most⟩

namespace CharCursor

variable {cursor last : CharCursor} {source : String} {before part body behind text : List Char}
  {c : Char} {rest : List Char}

namespace Stands

/-- Where a character stands is a word. -/
theorem place_eq (small : source.utf8ByteSize < 2 ^ 32)
    (stands : cursor.Stands source before (c :: rest)) : cursor.place = byteCount before := by
  -- No more bytes stand before the character than the source has.
  obtain ⟨offset, -⟩ := stands.here rfl
  have bytes := stands.bytes
  rw [place, offset]
  exact Checked.truncate_eq (by omega)

/-- The place behind a character is a word. -/
theorem placeBehind_eq (small : source.utf8ByteSize < 2 ^ 32)
    (stands : cursor.Stands source before (c :: rest)) :
    cursor.placeBehind = byteCount (before ++ [c]) := by
  -- The bytes of the character itself belong to the source, too.
  obtain ⟨offset, current, -⟩ := stands.here rfl
  have bytes := stands.bytes
  rw [← List.singleton_append, byteCount_append, byteCount_singleton] at bytes
  rw [placeBehind, stands.atEnd_cons, offset, current, byteCount_append, byteCount_singleton]
  exact Checked.truncate_eq (by simpa using by omega)

/-- A token starts where the cursor stands. -/
theorem tokenStart_eq (small : source.utf8ByteSize < 2 ^ 32)
    (stands : cursor.Stands source before (c :: rest)) :
    cursor.tokenStart = ⟨byteCount before, (Position.start.past before).location⟩ := by
  rw [tokenStart, stands.place_eq small, stands.location_eq]

end Stands

namespace StandsAtLast

/-- The character ahead is the first one behind the part. -/
theorem peek_eq (stands : last.StandsAtLast source before part behind) :
    last.peek = behind.head?.getD endMark := by
  obtain ⟨run, c, rfl, stands⟩ := stands
  exact stands.peek_eq

/-- The cursor moves on to what stands behind the part. -/
theorem next (small : source.utf8ByteSize < 2 ^ 32)
    (stands : last.StandsAtLast source before part behind) :
    ∃ after, last.next = .ok after ∧ after.Stands source (before ++ part) behind := by
  obtain ⟨run, c, rfl, stands⟩ := stands
  obtain ⟨after, moved, further⟩ := stands.next small
  exact ⟨after, moved, by simpa using further⟩

/-- The extent of a token reaches over its characters. -/
theorem span_eq (small : source.utf8ByteSize < 2 ^ 32) {location : Location}
    (stands : last.StandsAtLast source before part behind) :
    last.span ⟨byteCount before, location⟩ =
      .ok ⟨byteCount before, byteCount part, location⟩ := by
  obtain ⟨run, c, rfl, stands⟩ := stands
  -- A token does not end before it starts, so that the difference is a word.
  have stop : last.placeBehind = byteCount before + byteCount (run ++ [c]) := by
    rw [stands.placeBehind_eq small, List.append_assoc, byteCount_append]
  have ordered : byteCount before ≤ byteCount before + byteCount (run ++ [c]) :=
    Nat.le_add_right _ _
  rw [span, stop, Checked.bind_eq (Checked.ensure_eq (decide_eq_true ordered)),
    Checked.bind_eq (Checked.difference_eq ordered), Nat.add_sub_cancel_left]
  rfl

/-- The text of a token are its characters. -/
theorem fragment_eq (small : source.utf8ByteSize < 2 ^ 32) {location : Location}
    (stands : last.StandsAtLast source before part behind) :
    last.fragment source ⟨byteCount before, location⟩ = .ok (String.ofList part) := by
  have span : last.span ⟨byteCount before, location⟩ = _ := stands.span_eq small
  obtain ⟨run, c, rfl, stands⟩ := stands
  -- The span starts behind some characters of the source, and ends behind some more.
  have whole : source.toList = before ++ (run ++ [c] ++ behind) := by rw [stands.whole]; simp
  rw [fragment, Checked.bind_eq span]
  show Checked.slice source (byteCount before) (byteCount before + byteCount (run ++ [c])) = _
  rw [← byteCount_append]
  exact Checked.slice_eq whole

/-- A token ends with its last character, and reading goes on behind it. -/
theorem finish (small : source.utf8ByteSize < 2 ^ 32) {location : Location} (kind : TokenKind)
    (stands : last.StandsAtLast source before part behind) :
    ∃ after, last.finish ⟨byteCount before, location⟩ kind =
        .ok (⟨kind, ⟨byteCount before, byteCount part, location⟩⟩, after) ∧
      after.Stands source (before ++ part) behind := by
  obtain ⟨after, moved, further⟩ := stands.next small
  refine ⟨after, ?_, further⟩
  rw [CharCursor.finish, Checked.bind_eq (stands.span_eq small), Checked.bind_eq moved]
  cases behind with
  | nil =>
    -- At the end of the source nothing is asserted.
    rw [if_pos further.atEnd_nil]
    rfl
  | cons d behind =>
    -- Otherwise reading goes on where the token ends.
    have bytes := further.bytes
    rw [byteCount_append] at bytes
    have fits : (Span.mk (byteCount before) (byteCount part) location).stop < 2 ^ 32 := by
      show byteCount before + byteCount part < _
      omega
    have same : (after.place == (Span.mk (byteCount before) (byteCount part) location).stop)
        = true := by
      rw [further.place_eq small, byteCount_append]
      exact beq_self_eq_true _
    rw [if_neg (by simp [further.atEnd_cons]), Checked.bind_eq (Checked.word_eq fits),
      Checked.bind_eq (Checked.ensure_eq same)]
    rfl

end StandsAtLast

namespace Stands

variable {contentStart counted : Nat} {d : Char}

/-- A character that may stand in a string is counted, up to the longest string. -/
theorem stringRest_inside (small : source.utf8ByteSize < 2 ^ 32) (inside : InString d)
    (short : counted + 1 ≤ 32767) (stands : cursor.Stands source before (c :: d :: rest)) :
    ∃ after : CharCursor, after.Stands source (before ++ [c]) (d :: rest) ∧
      cursor.stringRest source contentStart counted =
        after.stringRest source contentStart (counted + 1) := by
  obtain ⟨after, moved, further⟩ := stands.next small
  have current := further.current_eq
  obtain ⟨quote, onLine, fits⟩ := inside.tests
  rw [← current] at onLine
  have length : ¬maxOperand < counted + 1 := Nat.not_lt.mpr short
  refine ⟨after, further, ?_⟩
  rw [stringRest_of_next moved, if_pos ⟨further.atEnd_cons, onLine⟩, current, if_neg fits,
    if_neg quote, Checked.bind_eq (Checked.word_eq (Nat.lt_of_le_of_lt short (by decide))),
    if_neg length]

/-- The body of a string is counted, up to the longest string. -/
theorem stringRest_body (small : source.utf8ByteSize < 2 ^ 32) (inside : ∀ d ∈ body, InString d)
    (short : counted + body.length ≤ 32767)
    (stands : cursor.Stands source before (c :: (body ++ behind))) :
    ∃ after : CharCursor, after.StandsAtLast source before (c :: body) behind ∧
      cursor.stringRest source contentStart counted =
        after.stringRest source contentStart (counted + body.length) := by
  -- Each character of the body is one turn, which finds it ahead of the cursor.
  induction body generalizing c counted before cursor with
  | nil => exact ⟨cursor, .single stands, rfl⟩
  | cons d body ih =>
    obtain ⟨first, others⟩ := List.forall_mem_cons.mp inside
    have length : counted + (d :: body).length = counted + 1 + body.length := by
      rw [List.length_cons, Nat.add_assoc, Nat.add_comm 1]
    rw [length] at short ⊢
    have one : counted + 1 ≤ 32767 := Nat.le_trans (Nat.le_add_right _ _) short
    obtain ⟨after, further, same⟩ := stands.stringRest_inside small first one
    obtain ⟨final, reached, goesOn⟩ := ih others short further
    exact ⟨final, reached.cons, same.trans goesOn⟩

/-- A string is read from its body on, up to the longest string. -/
theorem readString_body (small : source.utf8ByteSize < 2 ^ 32) (inside : ∀ d ∈ body, InString d)
    (short : body.length ≤ 32767)
    (stands : cursor.Stands source before ('"' :: (body ++ behind))) :
    ∃ after : CharCursor, after.StandsAtLast source before ('"' :: body) behind ∧
      cursor.readString source =
        after.stringRest source (byteCount (before ++ ['"'])) body.length := by
  have opened : cursor.readString source =
      cursor.stringRest source (byteCount (before ++ ['"'])) 0 := by
    rw [readString, Checked.bind_eq (Checked.ensure_eq (by simp [stands.current_eq])),
      stands.placeBehind_eq small]
  rw [opened, ← Nat.zero_add body.length]
  exact stands.stringRest_body small inside (by simpa using short)

/-- A string that is closed is read as the slice between its quotes. -/
theorem readString_closed (small : source.utf8ByteSize < 2 ^ 32) (inside : ∀ d ∈ body, InString d)
    (short : body.length ≤ 32767)
    (stands : cursor.Stands source before ('"' :: (body ++ '"' :: behind))) :
    ∃ last, cursor.readString source = .ok (.ok (.string (String.ofList body), last)) ∧
      last.Stands source (before ++ '"' :: body) ('"' :: behind) := by
  obtain ⟨after, reached, same⟩ := stands.readString_body small inside short
  obtain ⟨last, moved, final⟩ := reached.next small
  -- The slice starts behind the opening quote and ends before the closing one.
  have text : source.toList = before ++ ['"'] ++ (body ++ '"' :: behind) := by
    rw [stands.whole]
    simp
  have content : Checked.slice source (byteCount (before ++ ['"'])) last.place =
      .ok (String.ofList body) := by
    rw [final.place_eq small, show before ++ '"' :: body = before ++ ['"'] ++ body by simp]
    exact Checked.slice_eq text
  refine ⟨last, ?_, final⟩
  rw [same, stringRest_of_next moved, final.current_eq,
    if_pos ⟨final.atEnd_cons, by decide⟩, if_neg (by decide), if_pos rfl, Checked.bind_eq content]
  rfl

/-- A string that is malformed is refused for the reason that the grammar gives. -/
theorem readString_malformed (small : source.utf8ByteSize < 2 ^ 32) {fault : LexicalFault}
    (malformed : Malformed ('"' :: text) fault)
    (stands : cursor.Stands source before ('"' :: text)) :
    cursor.readString source = .ok (.error fault) := by
  -- The body is read up to what is wrong with the string, which the next turn meets.
  generalize whole : '"' :: text = all at malformed stands
  cases malformed with
  | @unterminatedString body behind inside bounded ends =>
    obtain ⟨after, reached, same⟩ := stands.readString_body small inside bounded
    obtain ⟨next, moved, final⟩ := reached.next small
    have ended : ¬(next.atEnd = false ∧ isLineBreak next.current = false) := by
      rintro ⟨here, onLine⟩
      cases behind with
      | nil =>
        rw [final.atEnd_nil] at here
        cases here
      | cons d behind =>
        rw [final.current_eq] at onLine
        rcases ends d rfl with rfl | rfl <;> exact absurd onLine (by decide)
    rw [same, stringRest_of_next moved, if_neg ended]
  | @unrepresentable body behind d inside bounded large =>
    obtain ⟨after, reached, same⟩ := stands.readString_body small inside bounded
    obtain ⟨next, moved, final⟩ := reached.next small
    -- Line breaks are small characters.
    have onLine : isLineBreak d = false := by
      refine Bool.eq_false_iff.mpr fun breaks => ?_
      simp only [isLineBreak, Bool.or_eq_true, beq_iff_eq] at breaks
      rcases breaks with rfl | rfl <;> exact absurd large (by decide)
    have large : maxOperand < d.toNat := large
    rw [same, stringRest_of_next moved, final.current_eq, if_pos ⟨final.atEnd_cons, onLine⟩,
      if_pos large]
  | @longString body behind inside long =>
    -- The last character is one more than the longest string has.
    rcases List.eq_nil_or_concat body with rfl | ⟨init, d, rfl⟩
    · cases long
    rw [List.concat_eq_append] at inside long stands
    rw [List.forall_mem_append, List.forall_mem_singleton] at inside
    have length : init.length = 32767 := by simpa using long
    rw [List.append_assoc, List.singleton_append] at stands
    obtain ⟨after, reached, same⟩ :=
      stands.readString_body small inside.1 (Nat.le_of_eq length)
    obtain ⟨next, moved, final⟩ := reached.next small
    obtain ⟨quote, onLine, fits⟩ := inside.2.tests
    rw [same, stringRest_of_next moved, final.current_eq, if_pos ⟨final.atEnd_cons, onLine⟩,
      if_neg fits, if_neg quote, length]
    rfl
  | @startsWithDigit digits behind letter nonempty inside =>
    obtain ⟨first, more, rfl⟩ := List.exists_cons_of_ne_nil nonempty
    obtain ⟨rfl, -⟩ := List.cons.inj whole
    exact absurd (inside '"' List.mem_cons_self) (by decide)
  | @integerRange digits behind number =>
    obtain ⟨first, more, rfl⟩ := List.exists_cons_of_ne_nil number.nonempty
    obtain ⟨rfl, -⟩ := List.cons.inj whole
    exact absurd (number.inside '"' List.mem_cons_self) (by decide)

variable {first : Char} {more : List Char}

/-- A run of characters is walked over and sliced off. -/
theorem nextWhile_fragment (small : source.utf8ByteSize < 2 ^ 32) {inRun : Char → Bool}
    (ends : inRun endMark = false) (inside : ∀ d ∈ more, inRun d = true)
    (stops : ∀ d ∈ behind.head?, inRun d = false)
    (stands : cursor.Stands source before (first :: (more ++ behind))) :
    ∃ last, last.StandsAtLast source before (first :: more) behind ∧
      cursor.nextWhile inRun ends = .ok last ∧
      last.fragment source cursor.tokenStart = .ok (String.ofList (first :: more)) := by
  obtain ⟨last, walked, reached⟩ := stands.nextWhile small ends inside stops
  refine ⟨last, reached, walked, ?_⟩
  rw [stands.tokenStart_eq small]
  exact reached.fragment_eq small

/-- A number is read up to its last digit, and its value is tested. -/
theorem readNumber_eq (small : source.utf8ByteSize < 2 ^ 32)
    (number : IsNumber (first :: more) behind)
    (stands : cursor.Stands source before (first :: (more ++ behind))) :
    ∃ last : CharCursor, last.StandsAtLast source before (first :: more) behind ∧
      cursor.readNumber source cursor.tokenStart =
        if Nat.ofDigitChars 10 (first :: more) 0 ≤ 32767 then
          .ok (.ok (.integer (Nat.ofDigitChars 10 (first :: more) 0), last))
        else .ok (.error (.integerRange (String.ofList (first :: more)))) := by
  obtain ⟨own, others⟩ := List.forall_mem_cons.mp number.inside
  obtain ⟨last, reached, walked, digits⟩ :=
    stands.nextWhile_fragment small rfl others fun d member => (number.ends d member).1
  rw [← stands.current_eq] at own
  -- No letter stands behind the digits, and the mark of the end is no letter either.
  have letter : ¬last.peek.isAlpha = true := by
    rw [reached.peek_eq]
    cases behind with
    | nil => decide
    | cons d behind => simp [(number.ends d rfl).2]
  refine ⟨last, reached, ?_⟩
  rw [readNumber, Checked.bind_eq (Checked.ensure_eq own), Checked.bind_eq walked,
    Checked.bind_eq digits, if_neg letter, String.toList_ofList]
  by_cases fits : Nat.ofDigitChars 10 (first :: more) 0 ≤ 32767
  · have word : Nat.ofDigitChars 10 (first :: more) 0 < 2 ^ 32 := by omega
    have half : Nat.ofDigitChars 10 (first :: more) 0 < 2 ^ 16 := by omega
    have within : Nat.ofDigitChars 10 (first :: more) 0 ≤ maxOperand := fits
    rw [if_pos fits, Checked.word_eq word]
    show (if _ ≤ maxOperand then _ else _) = _
    rw [if_pos within, Checked.truncate_eq half]
    rfl
  · -- A number out of range is refused, whether or not it is a word.
    rw [if_neg fits, Checked.word]
    split
    · rename_i value same
      have large : ¬value ≤ maxOperand := by
        split at same <;> cases same
        exact fits
      rw [if_neg large]
      rfl
    · rfl

/-- A letter behind the digits is refused. -/
theorem readNumber_letter (small : source.utf8ByteSize < 2 ^ 32) {letter : Char}
    (inside : ∀ d ∈ first :: more, d.isDigit = true) (follows : letter.isAlpha = true)
    (stands : cursor.Stands source before (first :: (more ++ letter :: behind))) :
    cursor.readNumber source cursor.tokenStart =
      .ok (.error (.startsWithDigit (String.ofList (first :: more)) letter)) := by
  -- The letter ends the run of digits, and is the character ahead then.
  have other : letter.isDigit = false :=
    Reading.isDigit_of_startsWord (by simp [startsWord, follows])
  obtain ⟨own, others⟩ := List.forall_mem_cons.mp inside
  obtain ⟨last, reached, walked, digits⟩ :=
    stands.nextWhile_fragment small rfl others (by simpa using other)
  rw [← stands.current_eq] at own
  have peek : last.peek = letter := reached.peek_eq
  rw [readNumber, Checked.bind_eq (Checked.ensure_eq own), Checked.bind_eq walked,
    Checked.bind_eq digits, peek, if_pos follows]
  rfl

/-- A word is read up to its last character, and looked up among the keywords. -/
theorem readWord_eq (small : source.utf8ByteSize < 2 ^ 32) (starts : startsWord first = true)
    (inside : ∀ d ∈ more, continuesWord d = true)
    (stops : ∀ d ∈ behind.head?, continuesWord d = false)
    (stands : cursor.Stands source before (first :: (more ++ behind))) :
    ∃ last : CharCursor, last.StandsAtLast source before (first :: more) behind ∧
      cursor.readWord source cursor.tokenStart =
        match Keyword.ofText? (String.ofList (first :: more)) with
        | some keyword => .ok (.ok (.keyword keyword, last))
        | none => .ok (.ok (.identifier (String.ofList (first :: more)), last)) := by
  obtain ⟨last, reached, walked, spelling⟩ := stands.nextWhile_fragment small rfl inside stops
  rw [← stands.current_eq] at starts
  refine ⟨last, reached, ?_⟩
  rw [readWord, Checked.bind_eq (Checked.ensure_eq starts), Checked.bind_eq walked,
    Checked.bind_eq spelling]
  cases Keyword.ofText? (String.ofList (first :: more)) <;> rfl

/-- A letter starts a word. -/
theorem readKind_word (starts : startsWord first = true)
    (stands : cursor.Stands source before (first :: rest)) :
    cursor.readKind source = cursor.readWord source cursor.tokenStart := by
  have quote : first ≠ '"' := by
    rintro rfl
    exact absurd starts (by decide)
  simp [readKind, stands.current_eq, quote, Reading.isDigit_of_startsWord starts, starts]

/-- A digit starts a number. -/
theorem readKind_number (digit : first.isDigit = true)
    (stands : cursor.Stands source before (first :: rest)) :
    cursor.readKind source = cursor.readNumber source cursor.tokenStart := by
  have quote : first ≠ '"' := by
    rintro rfl
    exact absurd digit (by decide)
  rw [readKind, stands.current_eq, if_neg quote, if_pos digit]

/-- A token is read up to its last character. -/
theorem readKind_lexeme (small : source.utf8ByteSize < 2 ^ 32) {lexeme : List Char}
    {kind : TokenKind} (lexed : Lexeme lexeme kind behind)
    (stands : cursor.Stands source before (lexeme ++ behind)) :
    ∃ last : CharCursor, last.StandsAtLast source before lexeme behind ∧
      cursor.readKind source = .ok (.ok (kind, last)) := by
  -- The first character selects how the token is read.
  cases lexed with
  | keyword keyword ends =>
    obtain ⟨first, more, same, starts, inside⟩ := keyword.toList_text
    rw [same] at stands ⊢
    obtain ⟨last, reached, read⟩ := stands.readWord_eq small starts inside ends
    have spelled : String.ofList (first :: more) = keyword.text := by
      rw [← same, String.ofList_toList]
    rw [spelled, keyword.ofText?_text] at read
    exact ⟨last, reached, (stands.readKind_word starts).trans read⟩
  | @identifier first more _ starts inside ends free =>
    obtain ⟨last, reached, read⟩ := stands.readWord_eq small starts inside ends
    have unreserved : Keyword.ofText? (String.ofList (first :: more)) = none :=
      List.find?_eq_none.mpr fun keyword _ => by simpa using free keyword
    rw [unreserved] at read
    exact ⟨last, reached, (stands.readKind_word starts).trans read⟩
  | integer number bounded =>
    obtain ⟨first, more, rfl⟩ := List.exists_cons_of_ne_nil number.nonempty
    obtain ⟨last, reached, read⟩ := stands.readNumber_eq small number
    refine ⟨last, reached, ?_⟩
    rw [stands.readKind_number (number.inside first List.mem_cons_self), read, if_pos bounded]
  | @string body _ inside bounded =>
    -- The closing quote is the last character of the token.
    have opened : cursor.Stands source before ('"' :: (body ++ '"' :: behind)) := by
      simpa using stands
    obtain ⟨last, read, reached⟩ := opened.readString_closed small inside bounded
    refine ⟨last, ⟨'"' :: body, '"', rfl, reached⟩, ?_⟩
    rw [readKind, opened.current_eq, if_pos rfl, read]
  | @symbol c _ quote digit letter gap =>
    exact ⟨cursor, .single stands, by simp [readKind, stands.current_eq, quote, digit, letter]⟩

/-- What is malformed is refused for the reason that the grammar gives. -/
theorem readKind_malformed (small : source.utf8ByteSize < 2 ^ 32) {fault : LexicalFault}
    (malformed : Malformed text fault) (stands : cursor.Stands source before text) :
    cursor.readKind source = .ok (.error fault) := by
  obtain ⟨first, rest, rfl, -⟩ := malformed.ofChars
  by_cases quote : first = '"'
  · subst quote
    rw [readKind, if_pos stands.current_eq]
    exact stands.readString_malformed small malformed
  -- Everything else that is malformed starts with a digit.
  generalize whole : first :: rest = all at malformed stands
  cases malformed with
  | unterminatedString | unrepresentable | longString =>
    exact absurd (List.cons.inj whole).1 quote
  | @startsWithDigit digits behind letter nonempty inside follows =>
    obtain ⟨first, more, rfl⟩ := List.exists_cons_of_ne_nil nonempty
    rw [stands.readKind_number (inside first List.mem_cons_self)]
    exact stands.readNumber_letter small inside follows
  | @integerRange digits behind number large =>
    obtain ⟨first, more, rfl⟩ := List.exists_cons_of_ne_nil number.nonempty
    obtain ⟨last, -, read⟩ := stands.readNumber_eq small number
    rw [stands.readKind_number (number.inside first List.mem_cons_self), read,
      if_neg (Nat.not_le.mpr large)]

end Stands

end CharCursor

end JackCompiler
