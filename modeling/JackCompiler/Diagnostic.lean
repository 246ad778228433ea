import JackCompiler.Token.Position

/-! Reports of what went wrong, in the form in which they are shown. -/

namespace JackCompiler

/-- A report: an error in a source, with its place, or a failure to read or write. -/
inductive Diagnostic where
  /-- A malformed token. -/
  | lexical (location : Location) (message : String)
  /-- A token where the grammar allows no such token. -/
  | syntactic (location : Location) (message : String)
  /-- A well-formed use of a name that its declaration does not allow. -/
  | semantic (location : Location) (message : String)
  | io (message : String)
  /-- A text that could not be formatted. -/
  | formatting
deriving DecidableEq

namespace Diagnostic

/-- The text of a report: errors in a source open with their kind and their place. -/
def text : Diagnostic → String
  | .lexical location message => s!"lexical error at {location.text}: {message}"
  | .syntactic location message => s!"syntax error at {location.text}: {message}"
  | .semantic location message => s!"semantic error at {location.text}: {message}"
  | .io message => message
  | .formatting => "an error occurred when formatting an argument"

/-- The place in the source that a report is about. -/
def location? : Diagnostic → Option Location
  | .lexical location _ | .syntactic location _ | .semantic location _ => some location
  | .io _ | .formatting => none

/-- Reports about the shape of a single token. -/
def isLexical : Diagnostic → Bool
  | .lexical .. => true
  | _ => false

/-- Reports about the order of tokens. -/
def isSyntactic : Diagnostic → Bool
  | .syntactic .. => true
  | _ => false

/-- Reports about the use of names. -/
def isSemantic : Diagnostic → Bool
  | .semantic .. => true
  | _ => false

/-- The failure beneath a report, for reports that only pass one on. -/
def underlying? : Diagnostic → Option String
  | .lexical .. | .syntactic .. | .semantic .. => none
  | .io message => some message
  | .formatting => some Diagnostic.formatting.text

end Diagnostic

end JackCompiler
