import JackCompiler.Proofs.Checked.CharCursor

/-! Reading the tokens of a source with slices, with tested facts and with machine words. -/

namespace JackCompiler

/-- Where a token starts, as words. -/
structure TokenStart where
  offset : Nat
  location : Location

namespace CharCursor

/-- The start of a token at the character. -/
def tokenStart (cursor : CharCursor) : TokenStart := ⟨cursor.place, cursor.location⟩

/-- The extent of a token up to and including the character. -/
def span (start : TokenStart) (cursor : CharCursor) : Checked Span := do
  let stop := cursor.placeBehind
  Checked.ensure (start.offset ≤ stop)
  return ⟨start.offset, ← Checked.difference stop start.offset, start.location⟩

/-- The text of a token up to and including the character. -/
def fragment (source : String) (start : TokenStart) (cursor : CharCursor) : Checked String := do
  let span ← cursor.span start
  Checked.slice source span.index span.stop

/-- A token that ends with the character, and the place where reading goes on. -/
def finish (start : TokenStart) (kind : TokenKind) (cursor : CharCursor) :
    Checked (Token × CharCursor) := do
  let span ← cursor.span start
  let after ← cursor.next
  -- Where reading goes on inside the source, it does so behind the token.
  if after.atEnd then return (⟨kind, span⟩, after)
  else
    let stop ← Checked.word 32 span.stop
    Checked.ensure (after.place == stop)
    return (⟨kind, span⟩, after)

/-- The characters of a string up to its closing quote, when some have been counted already. -/
def stringRest (source : String) (contentStart counted : Nat) (cursor : CharCursor) :
    Checked (Except LexicalFault (TokenKind × CharCursor)) :=
  match _moved : cursor.next with
  | .error panic => .error panic
  | .ok after =>
    if _inside : after.atEnd = false ∧ isLineBreak after.current = false then
      if maxOperand < after.current.toNat then .ok (.error (.unrepresentable after.current))
      else if after.current = '"' then do
        let body ← Checked.slice source contentStart after.place
        return .ok (.string body, after)
      else do
        -- The length is tested before the next character is looked at.
        let counted ← Checked.word 32 (counted + 1)
        if maxOperand < counted then return .error .longString
        else after.stringRest source contentStart counted
    else .ok (.error .unterminatedString)
termination_by cursor.left
decreasing_by exact left_next_lt_of_inside _moved _inside.1

/-- What the rest of a string is depends on the next character. -/
theorem stringRest_of_next {source : String} {contentStart counted : Nat}
    {cursor after : CharCursor} (moved : cursor.next = .ok after) :
    cursor.stringRest source contentStart counted =
      if after.atEnd = false ∧ isLineBreak after.current = false then
        if maxOperand < after.current.toNat then .ok (.error (.unrepresentable after.current))
        else if after.current = '"' then do
          let body ← Checked.slice source contentStart after.place
          return .ok (.string body, after)
        else do
          let counted ← Checked.word 32 (counted + 1)
          if maxOperand < counted then return .error .longString
          else after.stringRest source contentStart counted
      else .ok (.error .unterminatedString) := by
  rw [stringRest]
  split
  · simp_all
  · rename_i next moved'
    obtain rfl : next = after := Except.ok.inj (moved'.symm.trans moved)
    split <;> rfl

/-- A string constant from its opening quote on. -/
def readString (source : String) (cursor : CharCursor) :
    Checked (Except LexicalFault (TokenKind × CharCursor)) := do
  Checked.ensure (cursor.current == '"')
  cursor.stringRest source cursor.placeBehind 0

/-- A number from its first digit on. -/
def readNumber (source : String) (start : TokenStart) (cursor : CharCursor) :
    Checked (Except LexicalFault (TokenKind × CharCursor)) := do
  Checked.ensure cursor.current.isDigit
  let last ← cursor.nextWhile Char.isDigit rfl
  let digits ← last.fragment source start
  if last.peek.isAlpha then return .error (.startsWithDigit digits last.peek)
  else
    -- A number beyond the words of 32 bits is not read at all, and is out of range, too.
    match Checked.word 32 (Nat.ofDigitChars 10 digits.toList 0) with
    | .ok value =>
      if value ≤ maxOperand then return .ok (.integer (Checked.truncate 16 value), last)
      else return .error (.integerRange digits)
    | .error _ => return .error (.integerRange digits)

/-- A keyword or a name from its first letter on. -/
def readWord (source : String) (start : TokenStart) (cursor : CharCursor) :
    Checked (Except LexicalFault (TokenKind × CharCursor)) := do
  Checked.ensure (startsWord cursor.current)
  let last ← cursor.nextWhile continuesWord rfl
  let spelling ← last.fragment source start
  match Keyword.ofText? spelling with
  | some keyword => return .ok (.keyword keyword, last)
  | none => return .ok (.identifier spelling, last)

/-- What starts at the character, and the place of its last character. -/
def readKind (source : String) (cursor : CharCursor) :
    Checked (Except LexicalFault (TokenKind × CharCursor)) :=
  if cursor.current = '"' then cursor.readString source
  else if cursor.current.isDigit then cursor.readNumber source cursor.tokenStart
  else if startsWord cursor.current then cursor.readWord source cursor.tokenStart
  else .ok (.ok (.symbol cursor.current, cursor))

/-- The next token with the place where reading goes on, nothing at the end of the source, or a
fault. -/
def nextToken (source : String) (cursor : CharCursor) :
    Checked (Except Fault (Option (Token × CharCursor))) := do
  let cursor ← cursor.skipGap
  if cursor.atEnd then return .ok none
  else
    match ← cursor.readKind source with
    | .error fault => return .error ⟨cursor.location, .lexical fault⟩
    | .ok (kind, last) =>
      let (token, after) ← last.finish cursor.tokenStart kind
      return .ok (some (token, after))

/-- The start of a token is no place before its gap. -/
theorem left_skipGap_le {cursor after : CharCursor} (skipped : cursor.skipGap = .ok after) :
    after.left ≤ cursor.left := by
  -- Blanks and comments are skipped one after another, and each is a place further.
  fun_induction skipGap cursor with
  | case1 cursor inside blank next moved ih =>
    exact Nat.le_trans (ih skipped) (left_next_le moved)
  | case2 => cases skipped
  | case3 cursor inside blank opens next moved ih =>
    exact Nat.le_trans (ih skipped) (Nat.le_of_lt (left_skipLineComment_lt moved inside))
  | case4 => cases skipped
  | case5 cursor inside blank other opens next moved ih =>
    exact Nat.le_trans (ih skipped) (Nat.le_of_lt (left_skipBlockComment_lt moved inside))
  | case6 => cases skipped
  | case7 | case8 => cases skipped; exact Nat.le_refl _

/-- The end of a run is its start or a later place. -/
theorem left_nextWhile {cursor last : CharCursor} {inRun : Char → Bool}
    {ends : inRun endMark = false} (walked : cursor.nextWhile inRun ends = .ok last) :
    last = cursor ∨ last.left < cursor.left := by
  fun_induction nextWhile inRun ends cursor with
  | case1 cursor member next moved ih =>
    -- A character is taken from those ahead, and whether the end is reached counts for less.
    have taken : next.left < cursor.left := by
      rcases next_cases moved with taken | ⟨none, -, -⟩
      · unfold left
        split <;> split <;> omega
      · rw [peek, none] at member
        exact absurd member (by simpa using ends)
    right
    rcases ih walked with rfl | further
    · exact taken
    · exact Nat.lt_trans further taken
  | case2 => cases walked
  | case3 => cases walked; exact .inl rfl

/-- The end of a string is a later place than its start. -/
theorem left_stringRest_lt {source : String} {contentStart counted : Nat}
    {cursor last : CharCursor} {kind : TokenKind}
    (read : cursor.stringRest source contentStart counted = .ok (.ok (kind, last))) :
    last.left < cursor.left := by
  fun_induction stringRest source contentStart counted cursor with
  | case1 => cases read
  | case2 => cases read
  | case3 counted cursor after moved inside small quote =>
    obtain ⟨body, -, read⟩ := bind_eq_ok_iff.mp read
    cases read
    exact left_next_lt_of_inside moved inside.1
  | case4 counted cursor after moved inside small quote ih =>
    obtain ⟨more, -, read⟩ := bind_eq_ok_iff.mp read
    split at read
    · cases read
    · exact Nat.lt_trans (ih more read) (left_next_lt_of_inside moved inside.1)
  | case5 => cases read

/-- What is read ends where it starts or at a later place. -/
theorem left_readKind {source : String} {cursor last : CharCursor} {kind : TokenKind}
    (read : cursor.readKind source = .ok (.ok (kind, last))) :
    last = cursor ∨ last.left < cursor.left := by
  -- Strings end later, runs of characters possibly where they start, and symbols always.
  unfold readKind at read
  split at read
  · obtain ⟨_, -, read⟩ := bind_eq_ok_iff.mp read
    exact .inr (left_stringRest_lt read)
  split at read
  · obtain ⟨_, -, read⟩ := bind_eq_ok_iff.mp read
    obtain ⟨end', walked, read⟩ := bind_eq_ok_iff.mp read
    obtain ⟨digits, -, read⟩ := bind_eq_ok_iff.mp read
    have same : last = end' := by
      split at read
      · cases read
      · split at read
        · split at read <;> cases read
          rfl
        · cases read
    exact same ▸ left_nextWhile walked
  split at read
  · obtain ⟨_, -, read⟩ := bind_eq_ok_iff.mp read
    obtain ⟨end', walked, read⟩ := bind_eq_ok_iff.mp read
    obtain ⟨spelling, -, read⟩ := bind_eq_ok_iff.mp read
    have same : last = end' := by
      split at read <;> cases read <;> rfl
    exact same ▸ left_nextWhile walked
  · cases read
    exact .inl rfl

/-- Reading goes on at a later place. -/
theorem left_nextToken_lt {source : String} {cursor after : CharCursor} {token : Token}
    (read : cursor.nextToken source = .ok (.ok (some (token, after)))) :
    after.left < cursor.left := by
  obtain ⟨start, skipped, read⟩ := bind_eq_ok_iff.mp read
  split at read
  · cases read
  rename_i inside
  obtain ⟨outcome, kind, read⟩ := bind_eq_ok_iff.mp read
  split at read
  · cases read
  rename_i kind last
  obtain ⟨⟨given, final⟩, ended, read⟩ := bind_eq_ok_iff.mp read
  obtain rfl : final = after := by cases read; rfl
  -- The last step leaves the last character of the token.
  obtain ⟨span, -, ended⟩ := bind_eq_ok_iff.mp ended
  obtain ⟨next, moved, ended⟩ := bind_eq_ok_iff.mp ended
  have same : next = final := by
    split at ended
    · cases ended
      rfl
    · obtain ⟨stop, -, ended⟩ := bind_eq_ok_iff.mp ended
      obtain ⟨_, -, ended⟩ := bind_eq_ok_iff.mp ended
      cases ended
      rfl
  subst same
  refine Nat.lt_of_lt_of_le ?_ (left_skipGap_le skipped)
  rcases left_readKind ‹_› with rfl | later
  · exact left_next_lt moved (Bool.eq_false_iff.mpr inside)
  · exact Nat.lt_of_le_of_lt (left_next_le moved) later

end CharCursor

/-- The tokens from a place on, after those found before it. -/
def Scan.ofCursor (source : String) (cursor : CharCursor) (found : Array Token) : Checked Scan :=
  match _read : cursor.nextToken source with
  | .error panic => .error panic
  | .ok (.ok (some (token, after))) => ofCursor source after (found.push token)
  | .ok (.ok none) => .ok ⟨found.toList, none⟩
  | .ok (.error fault) => .ok ⟨found.toList, some fault⟩
termination_by cursor.left
decreasing_by exact CharCursor.left_nextToken_lt _read

/-- All tokens of a source before its first malformed one. -/
def Scan.checked (source : String) : Checked Scan := do
  let cursor ← (CharCursor.before source).next
  ofCursor source cursor #[]

/-- What follows the last token, with the column behind it as a word. -/
def Scan.checkedEnding (scan : Scan) : Checked (Except Fault Location) :=
  match scan.fault? with
  | some fault => .ok (.error fault)
  | none =>
    match scan.tokens.getLast? with
    | some token => do
      let column ← Checked.word 32 (token.location.column + token.span.size)
      return .ok ⟨token.location.line, column⟩
    | none => .ok (.ok .start)

end JackCompiler
