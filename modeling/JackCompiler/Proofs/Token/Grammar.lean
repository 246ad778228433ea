import Mathlib.Data.List.TakeWhile
import JackCompiler.Token.Lexer

/-! The lexical grammar: how a source is made of tokens with gaps between them. -/

namespace JackCompiler

/-- A blank or a comment stands at the start of the text. -/
inductive StartsGap : List Char → Prop where
  | blank {c : Char} {rest : List Char} (blank : isBlank c = true) : StartsGap (c :: rest)
  | lineComment (rest : List Char) : StartsGap ('/' :: '/' :: rest)
  | blockComment (rest : List Char) : StartsGap ('/' :: '*' :: rest)

/-- The first text consists of blanks and comments, when the second one stands behind it. -/
inductive Separates : List Char → List Char → Prop where
  | nil (behind : List Char) : Separates [] behind
  | blank {c : Char} {gap behind : List Char} (blank : isBlank c = true)
      (rest : Separates gap behind) : Separates (c :: gap) behind
  /-- A line comment goes on up to the first line break, which is no part of it. -/
  | lineComment {body gap behind : List Char} (inside : ∀ c ∈ body, isLineBreak c = false)
      (ends : ∀ c ∈ (gap ++ behind).head?, isLineBreak c = true) (rest : Separates gap behind) :
      Separates ('/' :: '/' :: (body ++ gap)) behind
  /-- A block comment goes on up to the first closing mark behind its opening mark. -/
  | blockComment {body gap behind : List Char} (inside : ¬['*', '/'] <:+: body)
      (rest : Separates gap behind) : Separates ('/' :: '*' :: (body ++ '*' :: '/' :: gap)) behind
  /-- A block comment without a closing mark goes on to the end of the source. -/
  | openComment {body : List Char} (inside : ¬['*', '/'] <:+: body) :
      Separates ('/' :: '*' :: body) []

/-- The characters that a string constant may hold. -/
def InString (c : Char) : Prop := c ≠ '"' ∧ c ≠ '\n' ∧ c ≠ '\r' ∧ c.toNat ≤ 32767

/-- A run of digits as long as it can be, with no letter behind it. -/
structure IsNumber (digits behind : List Char) : Prop where
  nonempty : digits ≠ []
  inside : ∀ c ∈ digits, c.isDigit = true
  ends : ∀ c ∈ behind.head?, c.isDigit = false ∧ c.isAlpha = false

/-- The first text is a token of the given kind, when the second one stands behind it. -/
inductive Lexeme : List Char → TokenKind → List Char → Prop where
  | keyword {behind : List Char} (word : Keyword)
      (ends : ∀ c ∈ behind.head?, continuesWord c = false) :
      Lexeme word.text.toList (.keyword word) behind
  /-- A name is any other word, and a word is as long as it can be. -/
  | identifier {first : Char} {more behind : List Char} (starts : startsWord first = true)
      (inside : ∀ c ∈ more, continuesWord c = true)
      (ends : ∀ c ∈ behind.head?, continuesWord c = false)
      (free : ∀ word : Keyword, word.text ≠ String.ofList (first :: more)) :
      Lexeme (first :: more) (.identifier (String.ofList (first :: more))) behind
  | integer {digits behind : List Char} (number : IsNumber digits behind)
      (bounded : Nat.ofDigitChars 10 digits 0 ≤ 32767) :
      Lexeme digits (.integer (Nat.ofDigitChars 10 digits 0)) behind
  | string {body : List Char} (behind : List Char) (inside : ∀ c ∈ body, InString c)
      (bounded : body.length ≤ 32767) :
      Lexeme ('"' :: (body ++ ['"'])) (.string (String.ofList body)) behind
  /-- A symbol is any other single character that starts no gap. -/
  | symbol {c : Char} {behind : List Char} (quote : c ≠ '"') (digit : c.isDigit = false)
      (word : startsWord c = false) (gap : ¬StartsGap (c :: behind)) :
      Lexeme [c] (.symbol c) behind

/-- The text starts with something that is no token, for the given reason. -/
inductive Malformed : List Char → LexicalFault → Prop where
  | unterminatedString {body behind : List Char} (inside : ∀ c ∈ body, InString c)
      (bounded : body.length ≤ 32767) (ends : ∀ c ∈ behind.head?, c = '\n' ∨ c = '\r') :
      Malformed ('"' :: (body ++ behind)) .unterminatedString
  | unrepresentable {body behind : List Char} {c : Char} (inside : ∀ c ∈ body, InString c)
      (bounded : body.length ≤ 32767) (large : 32767 < c.toNat) :
      Malformed ('"' :: (body ++ c :: behind)) (.unrepresentable c)
  | longString {body behind : List Char} (inside : ∀ c ∈ body, InString c)
      (long : body.length = 32768) : Malformed ('"' :: (body ++ behind)) .longString
  | startsWithDigit {digits behind : List Char} {letter : Char} (nonempty : digits ≠ [])
      (inside : ∀ c ∈ digits, c.isDigit = true) (follows : letter.isAlpha = true) :
      Malformed (digits ++ letter :: behind) (.startsWithDigit (String.ofList digits) letter)
  | integerRange {digits behind : List Char} (number : IsNumber digits behind)
      (large : 32767 < Nat.ofDigitChars 10 digits 0) :
      Malformed (digits ++ behind) (.integerRange (String.ofList digits))

/-- Every text starts with a run of characters of one kind that is as long as it can be. -/
theorem exists_run (p : Char → Bool) (text : List Char) :
    ∃ run behind, text = run ++ behind ∧ (∀ c ∈ run, p c = true) ∧
      ∀ c ∈ behind.head?, p c = false := by
  -- The run is what can be taken, and the character behind it is the first that cannot.
  refine ⟨text.takeWhile p, text.dropWhile p, List.takeWhile_append_dropWhile.symm,
    fun c member => List.mem_takeWhile_imp member, fun c member => ?_⟩
  have stops := List.head?_dropWhile_not p text
  rw [Option.mem_def.mp member] at stops
  exact stops

/-- Every text has a first closing mark, or none at all. -/
theorem exists_closing (text : List Char) :
    (∃ body behind, text = body ++ '*' :: '/' :: behind ∧ ¬['*', '/'] <:+: body) ∨
      ¬['*', '/'] <:+: text := by
  -- The first closing mark stands at the first character or at a later one.
  induction text with
  | nil => exact .inr (by simp)
  | cons c rest ih =>
    by_cases closes : ['*', '/'] <+: c :: rest
    · obtain ⟨behind, same⟩ := closes
      exact .inl ⟨[], behind, same.symm, by simp⟩
    · rcases ih with ⟨body, behind, rfl, inside⟩ | none
      · refine .inl ⟨c :: body, behind, rfl, ?_⟩
        rw [List.infix_cons_iff]
        rintro (first | later)
        · exact closes (first.trans (by simp))
        · exact inside later
      · refine .inr ?_
        rw [List.infix_cons_iff]
        exact not_or.mpr ⟨closes, none⟩

/-- Every text starts with a gap that is as long as it can be, if only an empty one. -/
theorem exists_gap (text : List Char) :
    ∃ gap behind, text = gap ++ behind ∧ Separates gap behind ∧ ¬StartsGap behind := by
  -- The gap goes on behind each blank and each comment, until none of them starts.
  by_cases starts : StartsGap text
  · cases starts with
    | @blank c rest blank =>
      obtain ⟨gap, behind, rfl, separates, stops⟩ := exists_gap rest
      exact ⟨c :: gap, behind, rfl, .blank blank separates, stops⟩
    | lineComment rest =>
      obtain ⟨body, more, rfl, inside, ends⟩ := exists_run (!isLineBreak ·) rest
      obtain ⟨gap, behind, rfl, separates, stops⟩ := exists_gap more
      exact ⟨'/' :: '/' :: (body ++ gap), behind, by simp,
        .lineComment (by simpa using inside) (by simpa using ends) separates, stops⟩
    | blockComment rest =>
      rcases exists_closing rest with ⟨body, more, rfl, inside⟩ | inside
      · obtain ⟨gap, behind, rfl, separates, stops⟩ := exists_gap more
        exact ⟨'/' :: '*' :: (body ++ '*' :: '/' :: gap), behind, by simp,
          .blockComment inside separates, stops⟩
      · exact ⟨'/' :: '*' :: rest, [], by simp, .openComment inside, nofun⟩
  · exact ⟨[], text, rfl, .nil text, starts⟩
termination_by text.length
decreasing_by all_goals simp_all; try omega

/-- A string constant goes on while its characters may stand in one. -/
theorem isStringBody_iff {c : Char} : isStringBody c = true ↔ InString c := by
  change _ ↔ c ≠ '"' ∧ c ≠ '\n' ∧ c ≠ '\r' ∧ c.toNat ≤ maxOperand
  simp [isStringBody, isLineBreak, and_assoc]

/-- A quote opens a string constant or something malformed. -/
theorem exists_string (rest : List Char) :
    (∃ lexeme kind behind, '"' :: rest = lexeme ++ behind ∧ Lexeme lexeme kind behind) ∨
      ∃ fault, Malformed ('"' :: rest) fault := by
  -- What ends the longest possible body decides, unless the body is too long already.
  obtain ⟨body, behind, rfl, inside, ends⟩ := exists_run isStringBody rest
  have inside : ∀ c ∈ body, InString c := fun c member => isStringBody_iff.mp (inside c member)
  by_cases long : 32768 ≤ body.length
  · have first : ∀ c ∈ body.take 32768, InString c :=
      fun c member => inside c (List.mem_of_mem_take member)
    have malformed : Malformed ('"' :: (body.take 32768 ++ (body.drop 32768 ++ behind)))
        .longString := .longString first (by rw [List.length_take, Nat.min_eq_left long])
    rw [← List.append_assoc, List.take_append_drop] at malformed
    exact .inr ⟨_, malformed⟩
  · have bounded : body.length ≤ 32767 := by omega
    cases behind with
    | nil => exact .inr ⟨_, .unterminatedString inside bounded (by simp)⟩
    | cons c behind =>
      have outside : ¬InString c := by
        rw [← isStringBody_iff, ends c rfl]
        exact Bool.false_ne_true
      by_cases quote : c = '"'
      · subst quote
        exact .inl ⟨_, _, behind, by simp, .string behind inside bounded⟩
      · by_cases breaks : c = '\n' ∨ c = '\r'
        · exact .inr ⟨_, .unterminatedString inside bounded (by simpa using breaks)⟩
        · have large : 32767 < c.toNat := by
            by_contra small
            exact outside ⟨quote, not_or.mp breaks |>.1, not_or.mp breaks |>.2, by omega⟩
          exact .inr ⟨_, .unrepresentable inside bounded large⟩

/-- A digit starts a number or something malformed. -/
theorem exists_number {first : Char} (digit : first.isDigit = true) (rest : List Char) :
    (∃ lexeme kind behind, first :: rest = lexeme ++ behind ∧ Lexeme lexeme kind behind) ∨
      ∃ fault, Malformed (first :: rest) fault := by
  -- The digits are a number unless a letter follows them or their value is too large.
  obtain ⟨more, behind, rfl, inside, ends⟩ := exists_run Char.isDigit rest
  have digits : ∀ c ∈ first :: more, c.isDigit = true := List.forall_mem_cons.mpr ⟨digit, inside⟩
  by_cases letter : ∃ c ∈ behind.head?, c.isAlpha = true
  · obtain ⟨c, member, letter⟩ := letter
    obtain ⟨behind, rfl⟩ := List.head?_eq_some_iff.mp member
    exact .inr ⟨_, .startsWithDigit (List.cons_ne_nil first more) digits letter⟩
  · have number : IsNumber (first :: more) behind :=
      ⟨List.cons_ne_nil first more, digits, fun c member =>
        ⟨ends c member, by simpa using fun alpha => letter ⟨c, member, alpha⟩⟩⟩
    by_cases large : 32767 < Nat.ofDigitChars 10 (first :: more) 0
    · exact .inr ⟨_, .integerRange number large⟩
    · exact .inl ⟨_, _, behind, rfl, .integer number (by omega)⟩

/-- A letter or an underscore starts a word. -/
theorem exists_word {first : Char} (starts : startsWord first = true) (rest : List Char) :
    ∃ lexeme kind behind, first :: rest = lexeme ++ behind ∧ Lexeme lexeme kind behind := by
  -- A word that is not reserved is a name.
  obtain ⟨more, behind, rfl, inside, ends⟩ := exists_run continuesWord rest
  by_cases reserved : ∃ word : Keyword, word.text = String.ofList (first :: more)
  · obtain ⟨word, spelled⟩ := reserved
    have same : word.text.toList = first :: more := by rw [spelled, String.toList_ofList]
    exact ⟨_, _, behind, by rw [same]; rfl, .keyword word ends⟩
  · exact ⟨_, _, behind, rfl, .identifier starts inside ends (not_exists.mp reserved)⟩

/-- Where no gap starts, a token starts, or something malformed does. -/
theorem exists_lexeme {text : List Char} (some : text ≠ []) (stops : ¬StartsGap text) :
    (∃ lexeme kind behind, text = lexeme ++ behind ∧ Lexeme lexeme kind behind) ∨
      ∃ fault, Malformed text fault := by
  -- The first character tells what starts here.
  obtain ⟨first, rest, rfl⟩ := List.exists_cons_of_ne_nil some
  by_cases quote : first = '"'
  · rw [quote]
    exact exists_string rest
  by_cases digit : first.isDigit = true
  · exact exists_number digit rest
  by_cases word : startsWord first = true
  · exact .inl (exists_word word rest)
  · exact .inl ⟨[first], _, rest, rfl,
      .symbol quote (by simpa using digit) (by simpa using word) stops⟩

/-- A keyword is spelled like a word. -/
theorem Keyword.toList_text (word : Keyword) : ∃ first more, word.text.toList = first :: more ∧
    startsWord first ∧ ∀ c ∈ more, continuesWord c := by
  have formed : word.text.toList.head?.any startsWord ∧
      word.text.toList.tail.all continuesWord := by
    cases word <;> simp [Keyword.text, startsWord, continuesWord]
  cases spelled : word.text.toList with
  | nil => simp [spelled] at formed
  | cons first more =>
    rw [spelled] at formed
    exact ⟨first, more, rfl, by simpa using formed⟩

/-- The ten digits have consecutive code points. -/
theorem code_of_isDigit {c : Char} (digit : c.isDigit = true) :
    48 ≤ c.toNat ∧ c.toNat ≤ 57 := by
  have bounds : (decide (48 ≤ c.val) && decide (c.val ≤ 57)) = true := digit
  simpa [UInt32.le_iff_toNat_le] using bounds

/-- Letters and underscores have their code points behind those of the digits. -/
theorem code_of_startsWord {c : Char} (starts : startsWord c = true) :
    65 ≤ c.toNat ∧ c.toNat ≤ 122 := by
  rcases (Bool.or_eq_true _ _).mp starts with letter | underscore
  · have bounds : (decide (65 ≤ c.val ∧ c.val ≤ 90) ||
        decide (97 ≤ c.val) && decide (c.val ≤ 122)) = true := letter
    have code : c.toNat = c.val.toNat := rfl
    simp only [Bool.or_eq_true, Bool.and_eq_true, decide_eq_true_eq, UInt32.le_iff_toNat_le,
      UInt32.reduceToNat] at bounds
    omega
  · rw [eq_of_beq underscore]
    decide

/-- Strings, numbers and words start no gap. -/
theorem not_startsGap_cons {c : Char} {rest : List Char}
    (starts : c = '"' ∨ c.isDigit = true ∨ startsWord c = true) : ¬StartsGap (c :: rest) := by
  have code : c = '"' ∨ 48 ≤ c.toNat ∧ c.toNat ≤ 122 := by
    rcases starts with quote | digit | word
    · exact .inl quote
    · have bounds := code_of_isDigit digit
      exact .inr (by omega)
    · have bounds := code_of_startsWord word
      exact .inr (by omega)
  intro gap
  cases gap with
  | blank blank =>
    -- None of them is blank.
    rcases code with rfl | code
    · exact absurd blank (by decide)
    · rw [isBlank_eq_false (by omega) (by omega)] at blank
      cases blank
  | lineComment => simp at code
  | blockComment => simp at code

/-- No token starts with a gap. -/
theorem Lexeme.not_startsGap {lexeme behind : List Char} {kind : TokenKind}
    (lexed : Lexeme lexeme kind behind) : ¬StartsGap (lexeme ++ behind) := by
  -- A slash may be a token, but not where it opens a comment.
  cases lexed with
  | keyword word =>
    obtain ⟨first, more, same, starts, -⟩ := word.toList_text
    rw [same]
    exact not_startsGap_cons (.inr (.inr starts))
  | identifier starts => exact not_startsGap_cons (.inr (.inr starts))
  | integer number =>
    obtain ⟨first, more, rfl⟩ := List.exists_cons_of_ne_nil number.nonempty
    exact not_startsGap_cons (.inr (.inl (number.inside first List.mem_cons_self)))
  | string => exact not_startsGap_cons (.inl rfl)
  | symbol _ _ _ gap => exact gap

/-- Nothing malformed starts with a gap. -/
theorem Malformed.not_startsGap {text : List Char} {fault : LexicalFault}
    (malformed : Malformed text fault) : ¬StartsGap text := by
  cases malformed with
  | unterminatedString => exact not_startsGap_cons (.inl rfl)
  | unrepresentable => exact not_startsGap_cons (.inl rfl)
  | longString => exact not_startsGap_cons (.inl rfl)
  | startsWithDigit nonempty inside =>
    obtain ⟨first, more, rfl⟩ := List.exists_cons_of_ne_nil nonempty
    exact not_startsGap_cons (.inr (.inl (inside first List.mem_cons_self)))
  | integerRange number =>
    obtain ⟨first, more, rfl⟩ := List.exists_cons_of_ne_nil number.nonempty
    exact not_startsGap_cons (.inr (.inl (number.inside first List.mem_cons_self)))

end JackCompiler
