import JackCompiler.Text.Blank
import JackCompiler.Token.Basic
import JackCompiler.Vm.Command

/-! Reading the one token, or the one malformed token, at the head of a text. -/

namespace JackCompiler

/-- Why no token can be read. -/
inductive LexicalFault where
  | unterminatedString
  /-- Strings are built from machine constants, which are too small for the character. -/
  | unrepresentable (c : Char)
  /-- The length of a string is itself a machine constant. -/
  | longString
  /-- A run of digits goes on with a letter. -/
  | startsWithDigit (digits : String) (next : Char)
  | integerRange (digits : String)
deriving DecidableEq

/-- The wording of a lexical fault. -/
def LexicalFault.message : LexicalFault → String
  | .unterminatedString => "unterminated string constant"
  | .unrepresentable c => s!"character '{c}' can't be represented in a string constant"
  | .longString => s!"string constant is longer than {maxOperand} characters"
  | .startsWithDigit digits next =>
    s!"invalid identifier '{digits}{next}...', identifiers can't start with a digit"
  | .integerRange digits => s!"integer constant {digits} is out of range 0..={maxOperand}"

/-- Names start with an ASCII letter or an underscore. -/
def startsWord (c : Char) : Bool := c.isAlpha || c == '_'

/-- Names go on with ASCII letters, digits and underscores. -/
def continuesWord (c : Char) : Bool := startsWord c || c.isDigit

/-- The characters that a string constant may hold. -/
def isStringBody (c : Char) : Bool := c != '"' && !isLineBreak c && c.toNat ≤ maxOperand

/-- What stands at the head of a text, and how many of its characters are done with. -/
structure Reading where
  result : Except LexicalFault TokenKind
  length : Nat

namespace Reading

/-- The value of a run of digits after the digits before it, unless it exceeds every operand. -/
def operandValue? (value : Nat) : List Char → Option Nat
  | [] => some value
  | digit :: digits =>
    let next := 10 * value + (digit.toNat - '0'.toNat)
    if next ≤ maxOperand then operandValue? next digits else none

/-- A word is as long as it can be, and is a keyword exactly when it is spelled like one. -/
def word (first : Char) (rest : List Char) : Reading :=
  let more := rest.takeWhile continuesWord
  let spelling := String.ofList (first :: more)
  let kind := match Keyword.ofText? spelling with
    | some keyword => .keyword keyword
    | none => .identifier spelling
  ⟨.ok kind, more.length + 1⟩

/-- A number is as long as it can be, and no letter may follow it. -/
def number (first : Char) (rest : List Char) : Reading :=
  let more := rest.takeWhile Char.isDigit
  let digits := String.ofList (first :: more)
  let letter? := (rest.dropWhile Char.isDigit).head?.filter Char.isAlpha
  -- Both faults leave the last digit of the run unread.
  match letter?, operandValue? 0 (first :: more) with
  | some letter, _ => ⟨.error (.startsWithDigit digits letter), more.length⟩
  | none, none => ⟨.error (.integerRange digits), more.length⟩
  | none, some value => ⟨.ok (.integer value), more.length + 1⟩

/-- A string runs to the next quote on its line, which the given text follows its opening quote. -/
def string (rest : List Char) : Reading :=
  let body := rest.takeWhile isStringBody
  -- A string that is too long stops at the first character beyond the limit.
  if body.length > maxOperand then ⟨.error .longString, maxOperand + 1⟩
  else match rest.dropWhile isStringBody with
    | [] => ⟨.error .unterminatedString, body.length + 1⟩
    | c :: _ =>
      if c = '"' then ⟨.ok (.string (String.ofList body)), body.length + 2⟩
      else if isLineBreak c then ⟨.error .unterminatedString, body.length + 1⟩
      else ⟨.error (.unrepresentable c), body.length + 1⟩

/-- The reading at the head of a text that starts with the given character. -/
def ofChars (first : Char) (rest : List Char) : Reading :=
  if first = '"' then string rest
  else if first.isDigit then number first rest
  else if startsWord first then word first rest
  else ⟨.ok (.symbol first), 1⟩

/-- Reading a string is done with at least its opening quote. -/
theorem string_length_pos (rest : List Char) : 0 < (string rest).length := by
  -- Every outcome counts the quote before it counts the body.
  simp only [string]
  repeat' split
  all_goals exact Nat.succ_pos _

/-- Reading a number that is well formed is done with its first digit. -/
theorem number_length_pos {first : Char} {rest : List Char} {kind : TokenKind}
    (read : (number first rest).result = .ok kind) : 0 < (number first rest).length := by
  -- Of the three outcomes only the last gives a token, and it counts all the digits.
  simp only [number] at read ⊢
  split at read
  · cases read
  · cases read
  · exact Nat.succ_pos _

/-- A reading that gives a token is done with at least one character. -/
theorem length_pos {first : Char} {rest : List Char} {kind : TokenKind}
    (read : (ofChars first rest).result = .ok kind) : 0 < (ofChars first rest).length := by
  -- The first character decides which form of token is read.
  by_cases quoted : first = '"'
  · simp only [ofChars, if_pos quoted]
    exact string_length_pos rest
  by_cases digit : first.isDigit = true
  · simp only [ofChars, if_neg quoted, if_pos digit] at read ⊢
    exact number_length_pos read
  simp only [ofChars, if_neg quoted, if_neg digit]
  split <;> exact Nat.succ_pos _

end Reading

end JackCompiler
