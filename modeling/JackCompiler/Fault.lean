import JackCompiler.Diagnostic
import JackCompiler.Symbol.Basic
import JackCompiler.Token.Lexeme

/-! What can be wrong with a source, and how each fault is reported. -/

namespace JackCompiler

/-- Why a sequence of tokens is no class. -/
inductive SyntaxFault where
  /-- The source ends where a token is still required. -/
  | unexpectedEnd
  /-- Another token stands where one of the described form is required. -/
  | unexpected (expected : String) (found : TokenKind)
deriving DecidableEq

/-- The wording of a syntax fault. -/
def SyntaxFault.message : SyntaxFault → String
  | .unexpectedEnd => "unexpected end of file"
  | .unexpected expected found => s!"expected {expected}, found '{found.text}'"

/-- Why a name may not be used as it is. -/
inductive SemanticFault where
  /-- A declaration or a reference that the table of symbols refuses. -/
  | symbol (fault : SymbolFault)
  /-- An object's size is a machine constant, which bounds the number of fields. -/
  | tooManyFields (className : String)
  | undeclaredTarget (name : String)
  /-- Only variables of type `Array` have elements. -/
  | notIndexable (name type : String)
  | primitiveReceiver (method name type : String)
deriving DecidableEq

/-- The wording of a semantic fault. -/
def SemanticFault.message : SemanticFault → String
  | .symbol fault => fault.message
  | .tooManyFields className => s!"class {className} declares more than {maxOperand} fields"
  | .undeclaredTarget name => s!"cannot assign to undeclared variable '{name}'"
  | .notIndexable name type => s!"'{name}' of type {type} can't be indexed, expected Array"
  | .primitiveReceiver method name type =>
    s!"cannot call method '{method}' on '{name}' of primitive type {type}"

/-- What is wrong, apart from where. -/
inductive Cause where
  | lexical (fault : LexicalFault)
  | syntactic (fault : SyntaxFault)
  | semantic (fault : SemanticFault)
deriving DecidableEq

/-- A fault in a source: what is wrong, and the place that is reported for it. -/
structure Fault where
  location : Location
  cause : Cause
deriving DecidableEq

/-- The report of a fault. -/
def Fault.diagnostic (fault : Fault) : Diagnostic :=
  match fault.cause with
  | .lexical cause => .lexical fault.location cause.message
  | .syntactic cause => .syntactic fault.location cause.message
  | .semantic cause => .semantic fault.location cause.message

end JackCompiler
