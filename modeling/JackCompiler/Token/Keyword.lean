/-! The reserved words of the language. -/

namespace JackCompiler

/-- A word that cannot be used as a name. -/
inductive Keyword where
  -- Declarations.
  | «class»
  | constructor
  | function
  | method
  | field
  | static
  | var
  -- Types.
  | int
  | char
  | boolean
  | void
  -- Constants.
  | true
  | false
  | null
  | this
  -- Statements.
  | «let»
  | «do»
  | «if»
  | «else»
  | «while»
  | «return»
deriving DecidableEq

namespace Keyword

/-- The spelling of a keyword. -/
def text : Keyword → String
  | .«class» => "class"
  | .constructor => "constructor"
  | .function => "function"
  | .method => "method"
  | .field => "field"
  | .static => "static"
  | .var => "var"
  | .int => "int"
  | .char => "char"
  | .boolean => "boolean"
  | .void => "void"
  | .true => "true"
  | .false => "false"
  | .null => "null"
  | .this => "this"
  | .«let» => "let"
  | .«do» => "do"
  | .«if» => "if"
  | .«else» => "else"
  | .«while» => "while"
  | .«return» => "return"

/-- Every keyword, in the order of the language reference. -/
def all : List Keyword :=
  [.«class», .constructor, .function, .method, .field, .static, .var, .int, .char, .boolean, .void,
    .true, .false, .null, .this, .«let», .«do», .«if», .«else», .«while», .«return»]

/-- The keyword with the given spelling, if the word is reserved. -/
def ofText? (word : String) : Option Keyword := all.find? fun keyword => keyword.text == word

/-- Values of the primitive types have no methods. -/
def isPrimitive : Keyword → Bool
  | .int | .char | .boolean => Bool.true
  | _ => Bool.false

/-- The spelling of a keyword determines it. -/
theorem ofText?_text (keyword : Keyword) : ofText? keyword.text = some keyword := by
  -- No two keywords share a spelling, so the search stops at the right one.
  cases keyword <;> decide

end Keyword

end JackCompiler
