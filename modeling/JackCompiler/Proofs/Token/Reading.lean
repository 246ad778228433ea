import JackCompiler.Proofs.Token.Grammar

/-! Reading a source finds the gaps and the tokens that its grammar says. -/

namespace JackCompiler

namespace Gap

variable {c : Char} {body rest : List Char} {counted : Nat}

/-- A blank is counted. -/
theorem length_blank (blank : isBlank c = true) :
    Gap.blank.length counted (c :: rest) = Gap.blank.length (counted + 1) rest := by
  -- A slash, with which comments start, is no blank.
  have other : c ≠ '/' := by
    rintro rfl
    exact absurd blank (by decide)
  rw [Gap.length.eq_3] <;> simp_all

/-- A line comment is counted up to the line break behind it. -/
theorem length_lineComment (inside : ∀ c ∈ body, isLineBreak c = false)
    (ends : ∀ c ∈ rest.head?, isLineBreak c = true) :
    Gap.lineComment.length counted (body ++ rest) =
      Gap.blank.length (counted + body.length) rest := by
  induction body generalizing counted with
  | nil =>
    -- The line break itself is blank.
    cases rest with
    | nil => rfl
    | cons c rest =>
      have breaks := ends c rfl
      rw [List.nil_append, length_blank (isBlank_of_isLineBreak breaks), Gap.length, if_pos breaks]
      rfl
  | cons c body ih =>
    obtain ⟨first, others⟩ := List.forall_mem_cons.mp inside
    rw [List.cons_append, Gap.length, first]
    simp only [Bool.false_eq_true, if_false, ih others, List.length_cons]
    congr 1
    omega

/-- Nothing stands behind a block comment before its first closing mark. -/
theorem length_inside (opens : ¬['*', '/'] <+: c :: rest) :
    Gap.blockComment.length counted (c :: rest) = Gap.blockComment.length (counted + 1) rest := by
  refine Gap.length.eq_6 counted c rest ?_
  rintro more rfl rfl
  exact opens (by simp)

/-- A block comment is counted up to its first closing mark, and with it. -/
theorem length_blockComment (inside : ¬['*', '/'] <:+: body) :
    Gap.blockComment.length counted (body ++ '*' :: '/' :: rest) =
      Gap.blank.length (counted + body.length + 2) rest := by
  induction body generalizing counted with
  | nil => rfl
  | cons c body ih =>
    rw [List.infix_cons_iff, not_or] at inside
    -- The star of the closing mark does not close the comment together with a star before it.
    have opens : ¬['*', '/'] <+: c :: (body ++ '*' :: '/' :: rest) := by
      intro closes
      cases body with
      | nil => simp at closes
      | cons next body => exact inside.1 (by simpa using closes)
    rw [List.cons_append, length_inside opens, ih inside.2, List.length_cons]
    congr 1
    omega

/-- A block comment without a closing mark is counted up to the end. -/
theorem length_openComment (inside : ¬['*', '/'] <:+: body) :
    Gap.blockComment.length counted body = counted + body.length := by
  induction body generalizing counted with
  | nil => rfl
  | cons c body ih =>
    rw [List.infix_cons_iff, not_or] at inside
    rw [length_inside inside.1, ih inside.2, List.length_cons]
    omega

/-- Nothing is counted where no gap starts. -/
theorem length_stops {text : List Char} (stops : ¬StartsGap text) :
    Gap.blank.length counted text = counted := by
  cases text with
  | nil => rfl
  | cons c rest =>
    have notBlank : ¬isBlank c = true := fun blank => stops (.blank blank)
    rw [Gap.length.eq_3, if_neg notBlank]
    · rintro more rfl rfl
      exact stops (.lineComment more)
    · rintro more rfl rfl
      exact stops (.blockComment more)

end Gap

/-- A gap is counted as far as it goes. -/
theorem Separates.length_eq {gap behind : List Char} (separates : Separates gap behind)
    (stops : ¬StartsGap behind) (counted : Nat) :
    Gap.blank.length counted (gap ++ behind) = counted + gap.length := by
  -- Behind each blank and each comment the rest of the gap is counted on.
  induction separates generalizing counted with
  | nil => exact Gap.length_stops stops
  | blank blank _ ih =>
    rw [List.cons_append, Gap.length_blank blank, ih stops, List.length_cons]
    omega
  | lineComment inside ends _ ih =>
    have text : ∀ body gap behind : List Char, '/' :: '/' :: (body ++ gap) ++ behind =
      '/' :: '/' :: (body ++ (gap ++ behind)) := by simp
    rw [text, Gap.length.eq_1, Gap.length_lineComment inside ends, ih stops]
    simp
    omega
  | blockComment inside _ ih =>
    have text : ∀ body gap behind : List Char, '/' :: '*' :: (body ++ '*' :: '/' :: gap) ++ behind =
      '/' :: '*' :: (body ++ '*' :: '/' :: (gap ++ behind)) := by simp
    rw [text, Gap.length.eq_2, Gap.length_blockComment inside, ih stops]
    simp
    omega
  | openComment inside =>
    rw [List.append_nil, Gap.length.eq_2, Gap.length_openComment inside]
    simp
    omega

/-- Text that goes on with a character of another kind ends a run. -/
theorem takeWhile_run {p : Char → Bool} {run behind : List Char} (inside : ∀ c ∈ run, p c = true)
    (ends : ∀ c ∈ behind.head?, p c = false) :
    (run ++ behind).takeWhile p = run ∧ (run ++ behind).dropWhile p = behind := by
  rw [List.takeWhile_append_of_pos inside, List.dropWhile_append_of_pos inside]
  cases behind with
  | nil => simp
  | cons c behind => simp [ends c rfl]

/-- More digits make no smaller number. -/
theorem le_ofDigitChars (digits : List Char) (value : Nat) :
    value ≤ Nat.ofDigitChars 10 digits value := by
  induction digits generalizing value with
  | nil => exact Nat.le_refl value
  | cons digit digits ih =>
    rw [Nat.ofDigitChars_cons]
    have larger := ih (10 * value + (digit.toNat - '0'.toNat))
    omega

namespace Reading

variable {digits : List Char} {value : Nat}

/-- The value of a run of digits is found if it is no larger than every operand. -/
theorem operandValue?_eq_some (bounded : Nat.ofDigitChars 10 digits value ≤ maxOperand) :
    operandValue? value digits = some (Nat.ofDigitChars 10 digits value) := by
  induction digits generalizing value with
  | nil => rfl
  | cons digit digits ih =>
    rw [Nat.ofDigitChars_cons] at bounded ⊢
    rw [operandValue?, if_pos (Nat.le_trans (le_ofDigitChars digits _) bounded)]
    exact ih bounded

/-- No value of a run of digits is found if it is larger than every operand. -/
theorem operandValue?_eq_none (large : maxOperand < Nat.ofDigitChars 10 digits value)
    (small : value ≤ maxOperand) : operandValue? value digits = none := by
  induction digits generalizing value with
  | nil => exact absurd large (Nat.not_lt.mpr small)
  | cons digit digits ih =>
    rw [Nat.ofDigitChars_cons] at large
    by_cases next : 10 * value + (digit.toNat - '0'.toNat) ≤ maxOperand
    · rw [operandValue?, if_pos next]
      exact ih large next
    · rw [operandValue?, if_neg next]

/-- A letter or an underscore is no digit. -/
theorem isDigit_of_startsWord {c : Char} (starts : startsWord c = true) : c.isDigit = false := by
  refine Bool.eq_false_iff.mpr fun digit => ?_
  have low := (code_of_isDigit digit).2
  have high := (code_of_startsWord starts).1
  omega

variable {first : Char} {more body behind rest : List Char}

/-- A letter or an underscore starts a word. -/
theorem ofChars_word (starts : startsWord first = true) : ofChars first rest = word first rest := by
  have quote : first ≠ '"' := by
    rintro rfl
    exact absurd starts (by decide)
  simp [ofChars, quote, isDigit_of_startsWord starts, starts]

/-- A digit starts a number. -/
theorem ofChars_number (digit : first.isDigit = true) :
    ofChars first rest = number first rest := by
  have quote : first ≠ '"' := by
    rintro rfl
    exact absurd digit (by decide)
  simp [ofChars, quote, digit]

/-- A number is read as far as it goes, unless a letter stands behind it. -/
theorem number_run (run : IsNumber (first :: more) behind) :
    number first (more ++ behind) = match operandValue? 0 (first :: more) with
      | none => ⟨.error (.integerRange (String.ofList (first :: more))), more.length⟩
      | some value => ⟨.ok (.integer value), more.length + 1⟩ := by
  -- Without a letter behind the digits, only their value matters.
  obtain ⟨-, inside, ends⟩ := run
  obtain ⟨taken, dropped⟩ := takeWhile_run (List.forall_mem_cons.mp inside).2
    fun c member => (ends c member).1
  have none : behind.head?.filter Char.isAlpha = none :=
    Option.filter_eq_none_iff.mpr fun c member => by simp [(ends c member).2]
  simp only [number, taken, dropped, none]
  cases operandValue? 0 (first :: more) <;> rfl

/-- The body of a string is read up to the character that ends it. -/
theorem body_run (inside : ∀ c ∈ body, InString c)
    (ends : ∀ c ∈ behind.head?, isStringBody c = false) :
    (body ++ behind).takeWhile isStringBody = body ∧
      (body ++ behind).dropWhile isStringBody = behind :=
  takeWhile_run (fun c member => isStringBody_iff.mpr (inside c member)) ends

end Reading

/-- A token is read as it stands, with its whole length. -/
theorem Lexeme.ofChars {lexeme behind : List Char} {kind : TokenKind}
    (lexed : Lexeme lexeme kind behind) : ∃ first more, lexeme = first :: more ∧
      Reading.ofChars first (more ++ behind) = ⟨.ok kind, lexeme.length⟩ := by
  -- The first character selects how the token is read, and what stands behind it ends the reading.
  cases lexed with
  | keyword word ends =>
    obtain ⟨first, more, same, starts, inside⟩ := word.toList_text
    have spelled : String.ofList (first :: more) = word.text := by rw [← same, String.ofList_toList]
    refine ⟨first, more, same, ?_⟩
    rw [Reading.ofChars_word starts, same]
    simp only [Reading.word, (takeWhile_run inside ends).1, spelled, word.ofText?_text]
    rfl
  | @identifier first more _ starts inside ends free =>
    have unreserved : Keyword.ofText? (String.ofList (first :: more)) = none :=
      List.find?_eq_none.mpr fun word _ => by simpa using free word
    refine ⟨first, more, rfl, ?_⟩
    rw [Reading.ofChars_word starts]
    simp only [Reading.word, (takeWhile_run inside ends).1, unreserved]
    rfl
  | integer number bounded =>
    obtain ⟨first, more, rfl⟩ := List.exists_cons_of_ne_nil number.nonempty
    refine ⟨first, more, rfl, ?_⟩
    rw [Reading.ofChars_number (number.inside first List.mem_cons_self),
      Reading.number_run number, Reading.operandValue?_eq_some bounded]
    rfl
  | @string body _ inside bounded =>
    have ends : ∀ c ∈ ('"' :: behind).head?, isStringBody c = false := by simp [isStringBody]
    obtain ⟨taken, dropped⟩ := Reading.body_run inside ends
    have short : ¬body.length > maxOperand := Nat.not_lt.mpr bounded
    refine ⟨'"', body ++ ['"'], rfl, ?_⟩
    simp [Reading.ofChars, Reading.string, taken, dropped, short]
  | symbol quote digit word gap =>
    refine ⟨_, [], rfl, ?_⟩
    simp [Reading.ofChars, quote, digit, word]

/-- What is malformed is read as the fault that it is. -/
theorem Malformed.ofChars {text : List Char} {fault : LexicalFault}
    (malformed : Malformed text fault) : ∃ first rest, text = first :: rest ∧
      (Reading.ofChars first rest).result = .error fault := by
  -- A fault is met where the characters that may still be read end.
  cases malformed with
  | @unterminatedString body behind inside bounded ends =>
    have breaks : ∀ c ∈ behind.head?, isLineBreak c = true := by
      simpa [isLineBreak] using ends
    have stops : ∀ c ∈ behind.head?, isStringBody c = false := fun c member => by
      simp [isStringBody, breaks c member]
    obtain ⟨taken, dropped⟩ := Reading.body_run inside stops
    have short : ¬body.length > maxOperand := Nat.not_lt.mpr bounded
    refine ⟨'"', _, rfl, ?_⟩
    simp only [Reading.ofChars, if_true, Reading.string, taken, dropped, if_neg short]
    cases behind with
    | nil => rfl
    | cons c behind =>
      have other : c ≠ '"' := by
        rintro rfl
        exact absurd (breaks _ rfl) (by decide)
      simp [other, breaks c rfl]
  | @unrepresentable body behind c inside bounded large =>
    have outside : isStringBody c = false :=
      Bool.eq_false_iff.mpr fun body => Nat.not_le.mpr large (isStringBody_iff.mp body).2.2.2
    have stops : ∀ d ∈ (c :: behind).head?, isStringBody d = false := by simpa using outside
    obtain ⟨taken, dropped⟩ := Reading.body_run inside stops
    have short : ¬body.length > maxOperand := Nat.not_lt.mpr bounded
    have other : c ≠ '"' ∧ isLineBreak c = false := by
      refine ⟨?_, Bool.eq_false_iff.mpr fun breaks => ?_⟩
      · rintro rfl
        exact absurd large (by decide)
      · simp only [isLineBreak, Bool.or_eq_true, beq_iff_eq] at breaks
        rcases breaks with rfl | rfl <;> exact absurd large (by decide)
    refine ⟨'"', _, rfl, ?_⟩
    simp [Reading.ofChars, Reading.string, taken, dropped, short, other]
  | @longString body behind inside long =>
    have taken : (body ++ behind).takeWhile isStringBody =
        body ++ behind.takeWhile isStringBody :=
      List.takeWhile_append_of_pos fun c member => isStringBody_iff.mpr (inside c member)
    have large : (body ++ behind.takeWhile isStringBody).length > maxOperand := by
      rw [List.length_append, long]
      exact Nat.lt_of_lt_of_le (Nat.lt_succ_self 32767) (Nat.le_add_right _ _)
    refine ⟨'"', _, rfl, ?_⟩
    simp only [Reading.ofChars, if_true, Reading.string, taken, if_pos large]
  | @startsWithDigit digits behind letter nonempty inside follows =>
    obtain ⟨first, more, rfl⟩ := List.exists_cons_of_ne_nil nonempty
    obtain ⟨digit, others⟩ := List.forall_mem_cons.mp inside
    have other : letter.isDigit = false :=
      Reading.isDigit_of_startsWord (by simp [startsWord, follows])
    have ends : ∀ c ∈ (letter :: behind).head?, c.isDigit = false := by simpa using other
    obtain ⟨taken, dropped⟩ := takeWhile_run others ends
    have found : Option.filter Char.isAlpha (some letter) = some letter := by
      simp [Option.filter, follows]
    refine ⟨first, more ++ letter :: behind, rfl, ?_⟩
    rw [Reading.ofChars_number digit]
    simp only [Reading.number, taken, dropped, List.head?_cons, found]
  | @integerRange digits behind number large =>
    obtain ⟨first, more, rfl⟩ := List.exists_cons_of_ne_nil number.nonempty
    refine ⟨first, more ++ behind, rfl, ?_⟩
    rw [Reading.ofChars_number (number.inside first List.mem_cons_self),
      Reading.number_run number, Reading.operandValue?_eq_none large (Nat.zero_le _)]

end JackCompiler
