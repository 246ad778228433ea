import JackCompiler.Fault
import JackCompiler.Symbol.Table

/-! What is known of a class, and of the subroutine being read, at a point of its source. -/

namespace JackCompiler

/-- The three kinds of subroutine differ in whether, and how, they receive an object. -/
inductive SubroutineKind where
  /-- Makes the object it returns. -/
  | constructor
  /-- Has no object. -/
  | function
  /-- Receives an object as its first argument. -/
  | method
deriving DecidableEq

namespace SubroutineKind

/-- The word that names a kind of subroutine in progress reports. -/
def text : SubroutineKind → String
  | .constructor => "Constructor"
  | .function => "Function"
  | .method => "Method"

/-- The kind of subroutine that a keyword opens. -/
def ofKeyword? : Keyword → Option SubroutineKind
  | .constructor => some .constructor
  | .function => some .function
  | .method => some .method
  | _ => none

/-- Methods and constructors have a current object. -/
def hasObject : SubroutineKind → Bool
  | .constructor | .method => true
  | .function => false

end SubroutineKind

/-- The head of a subroutine, as far as its body depends on it. -/
structure Subroutine where
  kind : SubroutineKind
  /-- Whether the subroutine is declared `void`, so that leaving it needs no value. -/
  isVoid : Bool
  name : String
deriving DecidableEq

/-- What the text read so far says about the rest of a class. -/
structure ClassUnit where
  name : String := ""
  symbols : SymbolTable := {}
  subroutine : Subroutine := ⟨.function, false, ""⟩
  /-- The number of labels handed out. -/
  labels : Nat := 0

namespace ClassUnit

/-- Declares a name whose declaration stands at the given place. -/
def declare (unit : ClassUnit) (location : Location) (name type : String) (kind : SymbolKind) :
    Except Fault ClassUnit :=
  match unit.symbols.define name type kind with
  | (.ok _, symbols) => .ok { unit with symbols }
  | (.error fault, _) => .error ⟨location, .semantic (.symbol fault)⟩

/-- The symbol that a name used at the given place stands for. -/
def lookup (unit : ClassUnit) (location : Location) (name : String) : Except Fault Symbol :=
  match unit.symbols.lookup name with
  | .ok symbol => .ok symbol
  | .error fault => .error ⟨location, .semantic (.symbol fault)⟩

/-- Forgets the names of the last subroutine; a method then has its object as first argument. -/
def startSubroutine (unit : ClassUnit) (location : Location) (kind : SubroutineKind) :
    Except Fault ClassUnit :=
  let unit := { unit with symbols := unit.symbols.startSubroutine }
  match kind with
  | .method => unit.declare location "this" unit.name .argument
  | .constructor | .function => .ok unit

/-- The name of something that belongs to the class. -/
def member (unit : ClassUnit) (name : String) : String := s!"{unit.name}.{name}"

/-- A label that the class has not used, and the unit in which it is used. -/
def newLabel (unit : ClassUnit) : String × ClassUnit :=
  (unit.member s!"label{unit.labels}", { unit with labels := unit.labels + 1 })

/-- The commands that open a subroutine: its header, and the base of its object if it has one. -/
def opening (unit : ClassUnit) : List Command :=
  let header := .function (unit.member unit.subroutine.name) (unit.symbols.count .localVar)
  match unit.subroutine.kind with
  -- A constructor allocates one word for each field.
  | .constructor => [header, .push .constant (unit.symbols.count .field), .call "Memory.alloc" 1,
      .pop .pointer 0]
  | .method => [header, .push .argument 0, .pop .pointer 0]
  | .function => [header]

/-- The commands that close a subroutine without an expression: void subroutines return zero. -/
def bareReturn (unit : ClassUnit) : List Command :=
  if unit.subroutine.isVoid then [.push .constant 0, .ret] else [.ret]

end ClassUnit

end JackCompiler
