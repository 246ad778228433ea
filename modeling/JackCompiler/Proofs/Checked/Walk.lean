import JackCompiler.Proofs.Checked.CharCursor

/-! Walks over a source go where its lexical grammar says, and no word overflows on the way. -/

namespace JackCompiler

/-- The lines and columns of a text are numbered no higher than its characters. -/
theorem Position.location_past_le (before : List Char) :
    (Position.start.past before).location.line ≤ before.length + 1 ∧
      (Position.start.past before).location.column ≤ before.length + 1 := by
  -- Lines are counted by their breaks, and columns by the characters of the last line.
  have lines : before.count '\n' ≤ before.length := List.count_le_length
  have columns : (before.rtakeWhile (· ≠ '\n')).length ≤ before.length :=
    (List.rtakeWhile_suffix _ before).length_le
  rw [Position.past_start]
  show 1 + before.count '\n' ≤ _ ∧ 1 + (before.rtakeWhile (· ≠ '\n')).length ≤ _
  omega

namespace CharCursor

/-- The cursor stands in the source between the characters before it and those from it on. -/
structure Stands (cursor : CharCursor) (source : String) (before text : List Char) : Prop where
  whole : source.toList = before ++ text
  size : cursor.size = source.utf8ByteSize
  /-- Behind the last character only the offset is kept up. -/
  ended : text = [] → cursor.offset = cursor.size
  here : ∀ {c : Char} {rest : List Char}, text = c :: rest →
    cursor.offset = byteCount before ∧ cursor.current = c ∧
      cursor.ahead = charIndices (byteCount before + c.utf8Size) rest ∧
      cursor.location = (Position.start.past before).location

/-- The cursor stands at the last character of a part of the source, between what stands before the
part and what stands behind it. -/
def StandsAtLast (cursor : CharCursor) (source : String) (before part behind : List Char) : Prop :=
  ∃ run c, part = run ++ [c] ∧ cursor.Stands source (before ++ run) (c :: behind)

namespace StandsAtLast

variable {cursor : CharCursor} {source : String} {before part behind : List Char} {c : Char}

/-- A single character is its own last one. -/
theorem single (stands : cursor.Stands source before (c :: behind)) :
    cursor.StandsAtLast source before [c] behind :=
  ⟨[], c, rfl, by simpa using stands⟩

/-- A character in front of a part leaves the last one where it is. -/
theorem cons (stands : cursor.StandsAtLast source (before ++ [c]) part behind) :
    cursor.StandsAtLast source before (c :: part) behind := by
  obtain ⟨run, last, rfl, stands⟩ := stands
  exact ⟨c :: run, last, rfl, by simpa using stands⟩

end StandsAtLast

namespace Stands

variable {cursor : CharCursor} {source : String} {before text rest : List Char} {c : Char}

/-- The character at the cursor is the first one of the text. -/
theorem current_eq (stands : cursor.Stands source before (c :: rest)) : cursor.current = c :=
  (stands.here rfl).2.1

/-- Lines and columns are counted up to the cursor. -/
theorem location_eq (stands : cursor.Stands source before (c :: rest)) :
    cursor.location = (Position.start.past before).location :=
  (stands.here rfl).2.2.2

/-- The bytes of a source are those before the cursor and those from it on. -/
theorem bytes (stands : cursor.Stands source before text) :
    byteCount before + byteCount text = source.utf8ByteSize := by
  rw [← byteCount_append, ← stands.whole, byteCount, String.ofList_toList]

/-- A cursor at a character is not at the end. -/
theorem atEnd_cons (stands : cursor.Stands source before (c :: rest)) : cursor.atEnd = false := by
  obtain ⟨offset, -⟩ := stands.here rfl
  have bytes := stands.bytes
  have some := length_le_byteCount (c :: rest)
  rw [List.length_cons] at some
  rw [atEnd, stands.size, offset, decide_eq_false_iff_not]
  omega

/-- A cursor behind the last character is at the end. -/
theorem atEnd_nil (stands : cursor.Stands source before []) : cursor.atEnd = true := by
  rw [atEnd, stands.ended rfl]
  exact decide_eq_true (Nat.le_refl _)

/-- The character ahead is the next one of the text. -/
theorem peek_eq (stands : cursor.Stands source before (c :: rest)) :
    cursor.peek = rest.head?.getD endMark := by
  obtain ⟨-, -, ahead, -⟩ := stands.here rfl
  rw [peek, ahead]
  cases rest <;> rfl

/-- The cursor moves over one character, if the bytes of the source can be counted. -/
theorem next (stands : cursor.Stands source before (c :: rest))
    (small : source.utf8ByteSize < 2 ^ 32) :
    ∃ after, cursor.next = .ok after ∧ after.Stands source (before ++ [c]) rest := by
  -- Whatever the character is, it moves from the text to what stands before it.
  obtain ⟨offset, current, ahead, location⟩ := stands.here rfl
  have whole : source.toList = before ++ [c] ++ rest := by rw [stands.whole]; simp
  have behind : byteCount (before ++ [c]) = byteCount before + c.utf8Size := by
    rw [byteCount_append, byteCount_singleton]
  have moved : (Position.start.past (before ++ [c])).location =
      cursor.location.advance c := by
    rw [location, Position.past_append]
    rfl
  cases rest with
  | nil =>
    refine ⟨{ cursor with offset := cursor.size, current := endMark }, ?_,
      ⟨whole, stands.size, fun _ => rfl, nofun⟩⟩
    rw [CharCursor.next, ahead]
    rfl
  | cons d rest =>
    -- Two more characters still fit, so the numbers of lines and columns are small.
    have bytes := stands.bytes
    have characters := length_le_byteCount before
    have two := length_le_byteCount (c :: d :: rest)
    have bounds := Position.location_past_le before
    rw [← location] at bounds
    simp only [CharCursor.location, List.length_cons] at bounds two
    have line := Checked.word_eq (show cursor.line + 1 < 2 ^ 32 by omega)
    have column := Checked.word_eq (show cursor.column + 1 < 2 ^ 32 by omega)
    rw [CharCursor.next, ahead]
    simp only [charIndices, current]
    by_cases newline : c = '\n'
    · rw [if_pos newline, Checked.bind_eq line]
      refine ⟨_, rfl, whole, stands.size, nofun, ?_⟩
      rintro _ _ ⟨⟩
      refine ⟨behind.symm, rfl, by rw [behind], ?_⟩
      rw [moved, Location.advance, if_pos newline]
      rfl
    · rw [if_neg newline, Checked.bind_eq column]
      refine ⟨_, rfl, whole, stands.size, nofun, ?_⟩
      rintro _ _ ⟨⟩
      refine ⟨behind.symm, rfl, by rw [behind], ?_⟩
      rw [moved, Location.advance, if_neg newline]
      rfl

variable {more body behind : List Char}

/-- A run of characters is walked to its last character. -/
theorem nextWhile (small : source.utf8ByteSize < 2 ^ 32) {inRun : Char → Bool}
    (ends : inRun endMark = false) (inside : ∀ d ∈ more, inRun d = true)
    (stops : ∀ d ∈ behind.head?, inRun d = false)
    (stands : cursor.Stands source before (c :: (more ++ behind))) :
    ∃ last, cursor.nextWhile inRun ends = .ok last ∧
      last.StandsAtLast source before (c :: more) behind := by
  induction more generalizing c before cursor with
  | nil =>
    -- The character ahead is in no run, or it is the mark of the end.
    have stop : ¬inRun cursor.peek = true := by
      rw [stands.peek_eq]
      cases behind with
      | nil => simpa using ends
      | cons d behind => simpa using stops d rfl
    refine ⟨cursor, ?_, .single stands⟩
    rw [CharCursor.nextWhile, dif_neg stop]
  | cons d more ih =>
    obtain ⟨member, others⟩ := List.forall_mem_cons.mp inside
    obtain ⟨after, moved, further⟩ := stands.next small
    have goes : inRun cursor.peek = true := by
      rw [stands.peek_eq]
      exact member
    obtain ⟨last, walked, reached⟩ := ih others further
    refine ⟨last, ?_, reached.cons⟩
    rw [nextWhile_of_next goes moved, walked]

/-- The end of a line is where a line break stands, or the end of the source. -/
theorem skipLine (small : source.utf8ByteSize < 2 ^ 32)
    (inside : ∀ d ∈ body, isLineBreak d = false)
    (stops : ∀ d ∈ behind.head?, isLineBreak d = true)
    (stands : cursor.Stands source before (body ++ behind)) :
    ∃ after, cursor.skipLine = .ok after ∧ after.Stands source (before ++ body) behind := by
  -- The characters of the line are walked over one by one.
  induction body generalizing before cursor with
  | nil =>
    refine ⟨cursor, ?_, by simpa using stands⟩
    rw [CharCursor.skipLine, dif_neg]
    rintro ⟨here, onLine⟩
    cases behind with
    | nil =>
      rw [stands.atEnd_nil] at here
      cases here
    | cons d behind =>
      have current := stands.current_eq
      rw [current, stops d rfl] at onLine
      cases onLine
  | cons d body ih =>
    obtain ⟨member, others⟩ := List.forall_mem_cons.mp inside
    obtain ⟨after, moved, further⟩ := stands.next small
    have current := stands.current_eq
    obtain ⟨final, walked, reached⟩ := ih others further
    refine ⟨final, ?_, by simpa using reached⟩
    rw [skipLine_of_next ⟨stands.atEnd_cons, by rwa [current]⟩ moved, walked]

/-- A character that opens no closing mark is walked over. -/
theorem skipBlock_cons (small : source.utf8ByteSize < 2 ^ 32)
    (opens : ¬['*', '/'] <+: c :: rest) (stands : cursor.Stands source before (c :: rest)) :
    ∃ after : CharCursor, cursor.skipBlock = after.skipBlock ∧
      after.Stands source (before ++ [c]) rest := by
  obtain ⟨after, moved, further⟩ := stands.next small
  have current := stands.current_eq
  have mark : ¬(cursor.current = '*' ∧ cursor.peek = '/') := by
    rw [stands.peek_eq, current]
    rintro ⟨rfl, slash⟩
    cases rest with
    | nil => exact absurd slash (by decide)
    | cons d rest =>
      obtain rfl : d = '/' := slash
      exact opens (by simp)
  exact ⟨after, skipBlock_of_next stands.atEnd_cons mark moved, further⟩

/-- A block comment ends behind its first closing mark. -/
theorem skipBlock_closed (small : source.utf8ByteSize < 2 ^ 32) (inside : ¬['*', '/'] <:+: body)
    (stands : cursor.Stands source before (body ++ '*' :: '/' :: behind)) :
    ∃ after, cursor.skipBlock = .ok after ∧
      after.Stands source (before ++ (body ++ ['*', '/'])) behind := by
  induction body generalizing before cursor with
  | nil =>
    obtain ⟨slash, first, further⟩ := stands.next small
    obtain ⟨after, second, reached⟩ := further.next small
    have current := stands.current_eq
    have mark : cursor.current = '*' ∧ cursor.peek = '/' := ⟨current, stands.peek_eq⟩
    refine ⟨after, ?_, by simpa using reached⟩
    rw [CharCursor.skipBlock, dif_pos stands.atEnd_cons, if_pos mark, Checked.bind_eq first, second]
  | cons c body ih =>
    rw [List.infix_cons_iff, not_or] at inside
    -- The star of the closing mark does not close the comment together with a star before it.
    have opens : ¬['*', '/'] <+: c :: (body ++ '*' :: '/' :: behind) := by
      intro closes
      cases body with
      | nil => simp at closes
      | cons next body => exact inside.1 (by simpa using closes)
    obtain ⟨after, same, further⟩ := stands.skipBlock_cons small opens
    obtain ⟨final, walked, reached⟩ := ih inside.2 further
    exact ⟨final, same.trans walked, by simpa using reached⟩

/-- A block comment without a closing mark ends with the source. -/
theorem skipBlock_open (small : source.utf8ByteSize < 2 ^ 32) (inside : ¬['*', '/'] <:+: body)
    (stands : cursor.Stands source before body) :
    ∃ after, cursor.skipBlock = .ok after ∧ after.Stands source (before ++ body) [] := by
  induction body generalizing before cursor with
  | nil =>
    refine ⟨cursor, ?_, by simpa using stands⟩
    rw [CharCursor.skipBlock, dif_neg (by simp [stands.atEnd_nil])]
  | cons c body ih =>
    rw [List.infix_cons_iff, not_or] at inside
    obtain ⟨after, same, further⟩ := stands.skipBlock_cons small inside.1
    obtain ⟨final, walked, reached⟩ := ih inside.2 further
    exact ⟨final, same.trans walked, by simpa using reached⟩

/-- A gap is skipped as far as it goes. -/
theorem skipGap (small : source.utf8ByteSize < 2 ^ 32) {gap : List Char}
    (separates : Separates gap behind) (stops : ¬StartsGap behind)
    (stands : cursor.Stands source before (gap ++ behind)) :
    ∃ after, cursor.skipGap = .ok after ∧ after.Stands source (before ++ gap) behind := by
  -- Behind each blank and each comment the rest of the gap is skipped.
  induction separates generalizing before cursor with
  | nil behind =>
    refine ⟨cursor, ?_, by simpa using stands⟩
    cases behind with
    | nil => rw [CharCursor.skipGap, dif_neg (by simp [stands.atEnd_nil])]
    | cons c rest =>
      have current := stands.current_eq
      have blank : ¬isBlank cursor.current = true := by
        rw [current]
        exact fun blank => stops (.blank blank)
      have comment : ∀ mark, mark = '/' ∨ mark = '*' →
          ¬(cursor.current = '/' ∧ cursor.peek = mark) := by
        rintro mark marks ⟨slash, ahead⟩
        rw [stands.peek_eq] at ahead
        obtain rfl : c = '/' := current.symm.trans slash
        cases rest with
        | nil => rcases marks with rfl | rfl <;> exact absurd ahead (by decide)
        | cons d rest =>
          obtain rfl : d = mark := ahead
          rcases marks with rfl | rfl
          · exact stops (.lineComment rest)
          · exact stops (.blockComment rest)
      rw [CharCursor.skipGap, dif_pos stands.atEnd_cons, if_neg blank,
        if_neg (comment '/' (.inl rfl)), if_neg (comment '*' (.inr rfl))]
  | blank blank _ ih =>
    obtain ⟨next, moved, further⟩ := stands.next small
    have current := stands.current_eq
    obtain ⟨after, skipped, reached⟩ := ih stops further
    refine ⟨after, ?_, by simpa using reached⟩
    rw [skipGap_of_blank stands.atEnd_cons (by rwa [current]) moved, skipped]
  | @lineComment body gap behind inside ends _ ih =>
    have current := stands.current_eq
    -- Neither slash breaks the line.
    have line : ∀ d ∈ '/' :: '/' :: body, isLineBreak d = false := by
      simp only [List.forall_mem_cons]
      exact ⟨by decide, by decide, inside⟩
    have onLine : cursor.Stands source before ('/' :: '/' :: body ++ (gap ++ behind)) := by
      simpa using stands
    obtain ⟨next, walked, further⟩ := onLine.skipLine small line ends
    have comment : cursor.skipLineComment = .ok next := by
      rw [CharCursor.skipLineComment, Checked.bind_eq (Checked.ensure_eq (by simp [current])),
        walked]
    obtain ⟨after, skipped, reached⟩ := ih stops further
    refine ⟨after, ?_, by simpa using reached⟩
    rw [skipGap_of_lineComment stands.atEnd_cons ⟨current, stands.peek_eq⟩ comment, skipped]
  | @blockComment body gap behind inside _ ih =>
    have current := stands.current_eq
    obtain ⟨star, first, atStar⟩ := stands.next small
    obtain ⟨next, second, opened⟩ := atStar.next small
    have inComment : next.Stands source (before ++ ['/'] ++ ['*'])
        (body ++ '*' :: '/' :: (gap ++ behind)) := by simpa using opened
    obtain ⟨closed, walked, further⟩ := inComment.skipBlock_closed small inside
    have comment : cursor.skipBlockComment = .ok closed := by
      rw [CharCursor.skipBlockComment, Checked.bind_eq first, Checked.bind_eq second, walked]
    obtain ⟨after, skipped, reached⟩ := ih stops further
    refine ⟨after, ?_, by simpa using reached⟩
    rw [skipGap_of_blockComment stands.atEnd_cons ⟨current, stands.peek_eq⟩ comment, skipped]
  | @openComment body inside =>
    have current := stands.current_eq
    obtain ⟨star, first, atStar⟩ := stands.next small
    obtain ⟨next, second, opened⟩ := atStar.next small
    have inComment : next.Stands source (before ++ ['/'] ++ ['*']) body := by simpa using opened
    obtain ⟨closed, walked, further⟩ := inComment.skipBlock_open small inside
    have comment : cursor.skipBlockComment = .ok closed := by
      rw [CharCursor.skipBlockComment, Checked.bind_eq first, Checked.bind_eq second, walked]
    refine ⟨closed, ?_, by simpa using further⟩
    rw [skipGap_of_blockComment stands.atEnd_cons ⟨current, stands.peek_eq⟩ comment,
      CharCursor.skipGap, dif_neg (by simp [further.atEnd_nil])]

/-- The first move leads to the first character of a source, or to its end. -/
theorem first (source : String) : ∃ cursor, (CharCursor.before source).next = .ok cursor ∧
    cursor.Stands source [] source.toList := by
  cases text : source.toList with
  | nil =>
    refine ⟨{ CharCursor.before source with offset := source.utf8ByteSize }, ?_,
      text, rfl, fun _ => rfl, nofun⟩
    rw [CharCursor.next, CharCursor.before, text]
    rfl
  | cons c rest =>
    -- The mark before the source ends no line, so the first character stands in column one.
    refine ⟨{ CharCursor.before source with
      ahead := charIndices c.utf8Size rest, current := c, column := 1 }, ?_, text, rfl, nofun, ?_⟩
    · rw [CharCursor.next, CharCursor.before, text]
      simp [charIndices, endMark, Checked.word]
    · rintro _ _ ⟨⟩
      exact ⟨rfl, rfl, by simp [byteCount], rfl⟩

end Stands

end CharCursor

end JackCompiler
