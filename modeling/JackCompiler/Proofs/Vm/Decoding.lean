import JackCompiler.Proofs.Token.Grammar
import JackCompiler.Vm.Program
import Mathlib.Data.List.Forall2

/-! The text of a program is read back, line by line and word by word, as its commands. -/

namespace JackCompiler

namespace Segment

/-- Every segment. -/
def all : List Segment :=
  [.constant, .localVars, .argument, .statics, .this, .that, .pointer, .temp]

/-- The segment that a word names. -/
def ofText? (word : String) : Option Segment := all.find? fun segment => segment.text == word

/-- The name of a segment determines it. -/
theorem ofText?_text (segment : Segment) : ofText? segment.text = some segment := by
  -- No two segments share a name.
  cases segment <;> decide

end Segment

namespace Operation

/-- Every operation. -/
def all : List Operation := [.add, .sub, .neg, .eq, .gt, .lt, .and, .or, .not]

/-- The operation that a word names. -/
def ofText? (word : String) : Option Operation := all.find? fun operation => operation.text == word

/-- The name of an operation determines it. -/
theorem ofText?_text (operation : Operation) : ofText? operation.text = some operation := by
  -- No two operations share a name.
  cases operation <;> decide

end Operation

/-- A number is written with digits only. -/
theorem isDigit_of_mem_repr {number : Nat} {c : Char} (member : c ∈ number.repr.toList) :
    c.isDigit = true := by
  rw [Nat.toList_repr] at member
  exact Nat.isDigit_of_mem_toDigits (by decide) (by decide) member

/-- The text can stand as one word: it is not empty, and nothing in it is blank. -/
structure IsWord (text : String) : Prop where
  nonempty : text.toList ≠ []
  unbroken : ∀ c ∈ text.toList, isBlank c = false

namespace IsWord

/-- A number is written as a word. -/
theorem repr (number : Nat) : IsWord number.repr := by
  constructor
  · rw [Nat.toList_repr]
    exact Nat.toDigits_ne_nil
  · -- All characters are digits, and these are not blank.
    intro c member
    have bounds := code_of_isDigit (isDigit_of_mem_repr member)
    exact isBlank_eq_false (by omega) (by omega)

end IsWord

namespace Command

/-- The name that a command refers to or introduces. -/
def name? : Command → Option String
  | .label name | .goto name | .ifGoto name | .call name _ | .function name _ => some name
  | .push .. | .pop .. | .operate _ | .ret => none

/-- The words of a command. -/
def words : Command → List String
  | .push segment index => ["push", segment.text, index.repr]
  | .pop segment index => ["pop", segment.text, index.repr]
  | .operate operation => [operation.text]
  | .label name => ["label", name]
  | .goto name => ["goto", name]
  | .ifGoto name => ["if-goto", name]
  | .call name arguments => ["call", name, arguments.repr]
  | .function name locals => ["function", name, locals.repr]
  | .ret => ["return"]

/-- A command is written as its words, with a space between any two of them. -/
theorem toList_text (command : Command) :
    command.text.toList = [' '].intercalate (command.words.map String.toList) := by
  cases command <;> simp [text, words, List.intercalate, toString]

end Command

namespace Command

/-- What is written on the line of a command. -/
def onLine (command : Command) : String := command.indentation ++ command.text

end Command

end JackCompiler
