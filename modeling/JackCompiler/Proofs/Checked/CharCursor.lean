import JackCompiler.Proofs.Checked.Panic

/-! Walking over the characters of a source, with machine words for places. -/

namespace JackCompiler

/-- Characters with the byte offsets at which they start. -/
def charIndices (offset : Nat) : List Char → List (Nat × Char)
  | [] => []
  | c :: rest => (offset, c) :: charIndices (offset + c.utf8Size) rest

/-- The character that is shown behind the end of a source; a source may hold it, too. -/
def endMark : Char := '\x00'

/-- A place in a source: the character there, and those ahead with their offsets. -/
structure CharCursor where
  ahead : List (Nat × Char)
  offset : Nat
  current : Char
  /-- The number of bytes in the source. -/
  size : Nat
  line : Nat
  column : Nat

namespace CharCursor

/-- Before the first character of a source. -/
def before (source : String) : CharCursor where
  ahead := charIndices 0 source.toList
  offset := 0
  current := endMark
  size := source.utf8ByteSize
  line := 1
  column := 0

/-- No character is left. -/
def atEnd (cursor : CharCursor) : Bool := cursor.size ≤ cursor.offset

/-- The character ahead. -/
def peek (cursor : CharCursor) : Char := (cursor.ahead.head?.map Prod.snd).getD endMark

/-- The offset as a word. -/
def place (cursor : CharCursor) : Nat := Checked.truncate 32 cursor.offset

/-- The offset behind the character as a word. -/
def placeBehind (cursor : CharCursor) : Nat :=
  Checked.truncate 32 <|
    if cursor.atEnd then cursor.size else cursor.offset + cursor.current.utf8Size

/-- The line and the column of the character. -/
def location (cursor : CharCursor) : Location := ⟨cursor.line, cursor.column⟩

/-- The next character, whose line or column is one more. -/
def next (cursor : CharCursor) : Checked CharCursor :=
  match cursor.ahead with
  | (offset, current) :: ahead =>
    if cursor.current = '\n' then do
      let line ← Checked.word 32 (cursor.line + 1)
      return { cursor with ahead, offset, current, line, column := 1 }
    else do
      let column ← Checked.word 32 (cursor.column + 1)
      return { cursor with ahead, offset, current, column }
  -- Behind the last character neither the line nor the column goes on.
  | [] => .ok { cursor with offset := cursor.size, current := endMark }

/-- A bound on the number of moves that are left. -/
def left (cursor : CharCursor) : Nat :=
  2 * cursor.ahead.length + if cursor.atEnd then 0 else 1

/-- A move takes a character from those ahead, or reaches the end. -/
theorem next_cases {cursor after : CharCursor} (moved : cursor.next = .ok after) :
    cursor.ahead.length = after.ahead.length + 1 ∨
      cursor.ahead = [] ∧ after.ahead = [] ∧ after.atEnd = true := by
  unfold next at moved
  split at moved
  · rename_i offset current ahead here
    left
    -- Whether a line ends here or not, the character is taken.
    split at moved
    · obtain ⟨line, -, moved⟩ := bind_eq_ok_iff.mp moved
      cases moved
      rw [here, List.length_cons]
    · obtain ⟨column, -, moved⟩ := bind_eq_ok_iff.mp moved
      cases moved
      rw [here, List.length_cons]
  · rename_i none
    cases moved
    exact .inr ⟨none, none, decide_eq_true (Nat.le_refl cursor.size)⟩

/-- No move goes back. -/
theorem left_next_le {cursor after : CharCursor} (moved : cursor.next = .ok after) :
    after.left ≤ cursor.left := by
  -- A character that is taken counts for more than the step to the end.
  rcases next_cases moved with taken | ⟨none, none', ended⟩
  · unfold left
    split <;> split <;> omega
  · simp [left, none, none', ended]

/-- A move from a character leaves fewer moves. -/
theorem left_next_lt {cursor after : CharCursor} (moved : cursor.next = .ok after)
    (inside : cursor.atEnd = false) : after.left < cursor.left := by
  rcases next_cases moved with taken | ⟨none, none', ended⟩
  · unfold left
    split <;> omega
  · simp [left, none, none', ended, inside]

/-- A move to a character leaves fewer moves. -/
theorem left_next_lt_of_inside {cursor after : CharCursor} (moved : cursor.next = .ok after)
    (inside : after.atEnd = false) : after.left < cursor.left := by
  rcases next_cases moved with taken | ⟨-, -, ended⟩
  · unfold left
    split <;> omega
  · rw [inside] at ended
    cases ended

/-- Moves on while the character ahead belongs to a run, which ends with the source. -/
def nextWhile (inRun : Char → Bool) (ends : inRun endMark = false) (cursor : CharCursor) :
    Checked CharCursor :=
  if _member : inRun cursor.peek = true then
    match _moved : cursor.next with
    | .ok after => after.nextWhile inRun ends
    | .error panic => .error panic
  else .ok cursor
termination_by cursor.ahead.length
decreasing_by
  rcases next_cases _moved with taken | ⟨none, -, -⟩
  · omega
  · -- Where no character is ahead, the mark of the end is, which is in no run.
    rw [peek, none] at _member
    exact absurd _member (by simpa using ends)

/-- Moves on to the end of the line. -/
def skipLine (cursor : CharCursor) : Checked CharCursor :=
  if _inside : cursor.atEnd = false ∧ isLineBreak cursor.current = false then
    match _moved : cursor.next with
    | .ok after => after.skipLine
    | .error panic => .error panic
  else .ok cursor
termination_by cursor.left
decreasing_by exact left_next_lt _moved _inside.1

/-- Moves on past the first closing mark of a comment, or to the end of the source. -/
def skipBlock (cursor : CharCursor) : Checked CharCursor :=
  if _inside : cursor.atEnd = false then
    if cursor.current = '*' ∧ cursor.peek = '/' then do
      let slash ← cursor.next
      slash.next
    else
      match _moved : cursor.next with
      | .ok after => after.skipBlock
      | .error panic => .error panic
  else .ok cursor
termination_by cursor.left
decreasing_by exact left_next_lt _moved _inside

/-- Skips a comment up to the break that ends its line. -/
def skipLineComment (cursor : CharCursor) : Checked CharCursor := do
  Checked.ensure (cursor.current == '/')
  cursor.skipLine

/-- Skips a comment with both of its marks. -/
def skipBlockComment (cursor : CharCursor) : Checked CharCursor := do
  -- The star of the opening mark closes nothing.
  let star ← cursor.next
  let inside ← star.next
  inside.skipBlock

/-- The end of a line is no place before. -/
theorem left_skipLine_le {cursor after : CharCursor} (skipped : cursor.skipLine = .ok after) :
    after.left ≤ cursor.left := by
  fun_induction skipLine cursor with
  | case1 cursor inside next moved ih => exact Nat.le_trans (ih skipped) (left_next_le moved)
  | case2 cursor inside panic stopped => cases skipped
  | case3 cursor inside => cases skipped; exact Nat.le_refl _

/-- The end of a comment is no place before. -/
theorem left_skipBlock_le {cursor after : CharCursor} (skipped : cursor.skipBlock = .ok after) :
    after.left ≤ cursor.left := by
  fun_induction skipBlock cursor with
  | case1 cursor inside closes =>
    obtain ⟨slash, first, second⟩ := bind_eq_ok_iff.mp skipped
    exact Nat.le_trans (left_next_le second) (left_next_le first)
  | case2 cursor inside closes next moved ih =>
    exact Nat.le_trans (ih skipped) (left_next_le moved)
  | case3 cursor inside closes panic stopped => cases skipped
  | case4 cursor inside => cases skipped; exact Nat.le_refl _

/-- A comment up to the end of its line takes at least its slash. -/
theorem left_skipLineComment_lt {cursor after : CharCursor}
    (skipped : cursor.skipLineComment = .ok after) (inside : cursor.atEnd = false) :
    after.left < cursor.left := by
  obtain ⟨_, slash, skipped⟩ := bind_eq_ok_iff.mp skipped
  have mark : cursor.current = '/' := by
    unfold Checked.ensure at slash
    split at slash
    · exact eq_of_beq ‹_›
    · cases slash
  -- The slash is on the line, so there is a move from it.
  have onLine : isLineBreak cursor.current = false := by rw [mark]; decide
  rw [skipLine, dif_pos ⟨inside, onLine⟩] at skipped
  split at skipped
  · exact Nat.lt_of_le_of_lt (left_skipLine_le skipped) (left_next_lt ‹_› inside)
  · cases skipped

/-- A comment with both of its marks takes at least its slash. -/
theorem left_skipBlockComment_lt {cursor after : CharCursor}
    (skipped : cursor.skipBlockComment = .ok after) (inside : cursor.atEnd = false) :
    after.left < cursor.left := by
  obtain ⟨star, first, skipped⟩ := bind_eq_ok_iff.mp skipped
  obtain ⟨next, second, skipped⟩ := bind_eq_ok_iff.mp skipped
  exact Nat.lt_of_le_of_lt (Nat.le_trans (left_skipBlock_le skipped) (left_next_le second))
    (left_next_lt first inside)

/-- Skips blanks and comments up to the start of a token or to the end of the source. -/
def skipGap (cursor : CharCursor) : Checked CharCursor :=
  if _inside : cursor.atEnd = false then
    if isBlank cursor.current then
      match _moved : cursor.next with
      | .ok after => after.skipGap
      | .error panic => .error panic
    else if cursor.current = '/' ∧ cursor.peek = '/' then
      match _moved : cursor.skipLineComment with
      | .ok after => after.skipGap
      | .error panic => .error panic
    else if cursor.current = '/' ∧ cursor.peek = '*' then
      match _moved : cursor.skipBlockComment with
      | .ok after => after.skipGap
      | .error panic => .error panic
    else .ok cursor
  else .ok cursor
termination_by cursor.left
decreasing_by
  · exact left_next_lt _moved _inside
  · exact left_skipLineComment_lt _moved _inside
  · exact left_skipBlockComment_lt _moved _inside

variable {cursor after : CharCursor}

/-- A walk along a run goes on from the character ahead. -/
theorem nextWhile_of_next {inRun : Char → Bool} {ends : inRun endMark = false}
    (member : inRun cursor.peek = true) (moved : cursor.next = .ok after) :
    cursor.nextWhile inRun ends = after.nextWhile inRun ends := by
  rw [nextWhile, dif_pos member]
  split <;> simp_all

/-- A walk to the end of the line goes on from the next character. -/
theorem skipLine_of_next (inside : cursor.atEnd = false ∧ isLineBreak cursor.current = false)
    (moved : cursor.next = .ok after) : cursor.skipLine = after.skipLine := by
  rw [skipLine, dif_pos inside]
  split <;> simp_all

/-- A walk to the end of a comment goes on from the next character. -/
theorem skipBlock_of_next (inside : cursor.atEnd = false)
    (mark : ¬(cursor.current = '*' ∧ cursor.peek = '/')) (moved : cursor.next = .ok after) :
    cursor.skipBlock = after.skipBlock := by
  rw [skipBlock, dif_pos inside, if_neg mark]
  split <;> simp_all

/-- A gap goes on behind a blank. -/
theorem skipGap_of_blank (inside : cursor.atEnd = false) (blank : isBlank cursor.current = true)
    (moved : cursor.next = .ok after) : cursor.skipGap = after.skipGap := by
  rw [skipGap, dif_pos inside, if_pos blank]
  split <;> simp_all

/-- A gap goes on behind a comment up to the end of its line. -/
theorem skipGap_of_lineComment (inside : cursor.atEnd = false)
    (opens : cursor.current = '/' ∧ cursor.peek = '/')
    (skipped : cursor.skipLineComment = .ok after) : cursor.skipGap = after.skipGap := by
  have slash : ¬isBlank cursor.current = true := by rw [opens.1]; decide
  rw [skipGap, dif_pos inside, if_neg slash, if_pos opens]
  split <;> simp_all

/-- A gap goes on behind a comment with both of its marks. -/
theorem skipGap_of_blockComment (inside : cursor.atEnd = false)
    (opens : cursor.current = '/' ∧ cursor.peek = '*')
    (skipped : cursor.skipBlockComment = .ok after) : cursor.skipGap = after.skipGap := by
  have slash : ¬isBlank cursor.current = true := by rw [opens.1]; decide
  have other : ¬(cursor.current = '/' ∧ cursor.peek = '/') := by rw [opens.2]; simp
  rw [skipGap, dif_pos inside, if_neg slash, if_neg other, if_pos opens]
  split <;> simp_all

end CharCursor

end JackCompiler
