import JackCompiler.Vm.Command

/-! Declared names, and the storage each kind of name is given. -/

namespace JackCompiler

/-- How a name is declared. -/
inductive SymbolKind where
  /-- Shared by all objects of a class. -/
  | static
  /-- Held by each object. -/
  | field
  | argument
  /-- Declared with `var` inside a subroutine. -/
  | localVar
deriving DecidableEq

/-- Where a name is visible. -/
inductive Scope where
  | wholeClass
  | subroutine
deriving DecidableEq

namespace SymbolKind

/-- The word that names a kind in messages. -/
def text : SymbolKind → String
  | .static => "static"
  | .field => "field"
  | .argument => "argument"
  | .localVar => "local"

/-- Statics and fields belong to the class, arguments and locals to their subroutine. -/
def scope : SymbolKind → Scope
  | .static | .field => .wholeClass
  | .argument | .localVar => .subroutine

/-- The segment that stores names of a kind. -/
def segment : SymbolKind → Segment
  | .static => .statics
  | .field => .this
  | .argument => .argument
  | .localVar => .localVars

end SymbolKind

/-- A declared name with its type and its place in storage. -/
structure Symbol where
  name : String
  type : String
  kind : SymbolKind
  /-- The number of names of the same kind declared before it in its scope. -/
  index : Nat
deriving DecidableEq

namespace Symbol

/-- The segment that stores a symbol's value. -/
def segment (symbol : Symbol) : Segment := symbol.kind.segment

/-- The command that puts a symbol's value on the stack. -/
def push (symbol : Symbol) : Command := .push symbol.segment symbol.index

/-- The command that takes a symbol's new value off the stack. -/
def pop (symbol : Symbol) : Command := .pop symbol.segment symbol.index

end Symbol

/-- Why a name cannot be declared or found. -/
inductive SymbolFault where
  /-- The scope already holds the name, declared with the given kind. -/
  | alreadyDefined (name : String) (kind : SymbolKind)
  | undefined (name : String)
  /-- Every index of the kind's segment is in use. -/
  | tooMany (name : String) (kind : SymbolKind)
deriving DecidableEq

/-- The wording of a symbol fault. -/
def SymbolFault.message : SymbolFault → String
  | .alreadyDefined name kind => s!"'{name}' is already defined as a {kind.text} in this scope"
  | .undefined name => s!"undefined name '{name}'"
  | .tooMany name kind =>
    s!"can't define '{name}', more than {maxOperand + 1} {kind.text} variables"

end JackCompiler
