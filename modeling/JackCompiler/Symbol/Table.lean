import Std.Data.TreeMap.Basic
import JackCompiler.Symbol.Basic

/-! The names visible at a point of a class. -/

namespace JackCompiler

/-- How many names of each kind are in force. -/
structure SymbolCounts where
  statics : Nat := 0
  fields : Nat := 0
  arguments : Nat := 0
  locals : Nat := 0
deriving DecidableEq

namespace SymbolCounts

/-- The number of names of one kind. -/
def get (counts : SymbolCounts) : SymbolKind → Nat
  | .static => counts.statics
  | .field => counts.fields
  | .argument => counts.arguments
  | .localVar => counts.locals

/-- One more name of a kind. -/
def increment (counts : SymbolCounts) : SymbolKind → SymbolCounts
  | .static => { counts with statics := counts.statics + 1 }
  | .field => { counts with fields := counts.fields + 1 }
  | .argument => { counts with arguments := counts.arguments + 1 }
  | .localVar => { counts with locals := counts.locals + 1 }

end SymbolCounts

/-- The names of a class and of the subroutine being read, each under its own name. -/
structure SymbolTable where
  ofClass : Std.TreeMap String Symbol := ∅
  ofSubroutine : Std.TreeMap String Symbol := ∅
  counts : SymbolCounts := {}

namespace SymbolTable

/-- The names of one scope. -/
def names (table : SymbolTable) : Scope → Std.TreeMap String Symbol
  | .wholeClass => table.ofClass
  | .subroutine => table.ofSubroutine

/-- How many names of a kind are in force. -/
def count (table : SymbolTable) (kind : SymbolKind) : Nat := table.counts.get kind

/-- A new subroutine sees the names of the class, and none of another subroutine. -/
def startSubroutine (table : SymbolTable) : SymbolTable :=
  { table with
    ofSubroutine := ∅
    counts := { table.counts with arguments := 0, locals := 0 } }

/-- The table with one more symbol, in the scope of the symbol's kind. -/
def insert (table : SymbolTable) (symbol : Symbol) : SymbolTable :=
  let table := { table with counts := table.counts.increment symbol.kind }
  match symbol.kind.scope with
  | .wholeClass => { table with ofClass := table.ofClass.insert symbol.name symbol }
  | .subroutine => { table with ofSubroutine := table.ofSubroutine.insert symbol.name symbol }

/-- Declares a name with the next index of its kind, and gives the symbol and the table after. -/
def define (table : SymbolTable) (name type : String) (kind : SymbolKind) :
    Except SymbolFault Symbol × SymbolTable :=
  match (table.names kind.scope)[name]? with
  -- A name that is taken is reported before a segment that is full.
  | some existing => (.error (.alreadyDefined name existing.kind), table)
  | none =>
    let index := table.count kind
    if index > maxOperand then (.error (.tooMany name kind), table)
    else
      let symbol : Symbol := { name, type, kind, index }
      (.ok symbol, table.insert symbol)

/-- What a name stands for: the names of the subroutine hide those of the class. -/
def get? (table : SymbolTable) (name : String) : Option Symbol :=
  table.ofSubroutine[name]? <|> table.ofClass[name]?

/-- A name is visible when it stands for something. -/
def contains (table : SymbolTable) (name : String) : Bool := (table.get? name).isSome

/-- What a name stands for, or the fault that it stands for nothing. -/
def lookup (table : SymbolTable) (name : String) : Except SymbolFault Symbol :=
  match table.get? name with
  | some symbol => .ok symbol
  | none => .error (.undefined name)

end SymbolTable

end JackCompiler
