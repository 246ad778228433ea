import JackCompiler.Proofs.Lowering.Expression
import JackCompiler.Proofs.Tree.Class

/-! The code of statements, subroutines and classes, and the rules that their names have to keep. -/

namespace JackCompiler

mutual

/-- The number of labels that a statement takes. -/
def Statement.labels : Statement → Nat
  | .ifThen _ body => body.labels + 1
  | .ifThenElse _ body otherwise => body.labels + otherwise.labels + 2
  | .whileDo _ body => body.labels + 2
  | _ => 0

/-- The number of labels that statements take. -/
def Statements.labels : Statements → Nat
  | .nil => 0
  | .cons first rest => first.labels + rest.labels

end

mutual

/-- The code of a statement, whose labels are numbered from the given number on. -/
def Statement.code (context : Context) (next : Nat) : Statement → List Command
  | .assign target value => value.code context ++ context.store target
  | .assignElement array index value =>
    -- The value may use `that` and `temp` itself, so the address waits for it on the stack.
    context.load array ++ index.code context ++ .operate .add :: value.code context ++
      [.pop .temp 0, .pop .pointer 1, .push .temp 0, .pop .that 0]
  | .ifThen condition body =>
    condition.code context ++ .operate .not :: .ifGoto (context.label next) ::
      body.code context (next + 1) ++ [.label (context.label next)]
  | .ifThenElse condition body otherwise =>
    -- The label behind the statement is taken once the first branch is complete.
    let finish := next + 1 + body.labels
    condition.code context ++ .operate .not :: .ifGoto (context.label next) ::
      body.code context (next + 1) ++
      .goto (context.label finish) :: .label (context.label next) ::
      otherwise.code context (finish + 1) ++ [.label (context.label finish)]
  | .whileDo condition body =>
    .label (context.label next) :: condition.code context ++
      .operate .not :: .ifGoto (context.label (next + 1)) :: body.code context (next + 2) ++
      [.goto (context.label next), .label (context.label (next + 1))]
  | .call call => call.code context ++ [.pop .temp 0]
  | .returnNothing =>
    -- Every subroutine returns a value, so one that is declared `void` returns zero.
    if context.subroutine.isVoid then [.push .constant 0, .ret] else [.ret]
  | .returnValue value => value.code context ++ [.ret]

/-- The code of statements, whose labels are numbered from the given number on. -/
def Statements.code (context : Context) (next : Nat) : Statements → List Command
  | .nil => []
  | .cons first rest => first.code context next ++ rest.code context (next + first.labels)

end

mutual

/-- A statement uses names as they are declared. -/
def Statement.Lawful (context : Context) : Statement → Prop
  | .assign target value => context.Declares target ∧ value.Lawful context
  | .assignElement array index value =>
    context.DeclaresArray array ∧ index.Lawful context ∧ value.Lawful context
  | .ifThen condition body => condition.Lawful context ∧ body.Lawful context
  | .ifThenElse condition body otherwise =>
    condition.Lawful context ∧ body.Lawful context ∧ otherwise.Lawful context
  | .whileDo condition body => condition.Lawful context ∧ body.Lawful context
  | .call call => call.Lawful context
  | .returnNothing => True
  | .returnValue value => value.Lawful context

/-- Statements use names as they are declared. -/
def Statements.Lawful (context : Context) : Statements → Prop
  | .nil => True
  | .cons first rest => first.Lawful context ∧ rest.Lawful context

end

/-- The number of declarations of one kind. -/
def countOf (declared : List Declaration) (kind : SymbolKind) : Nat :=
  declared.countP (·.kind == kind)

/-- The symbol of a declaration: its index is the number of earlier declarations of its kind. -/
def Declaration.symbol (before : List Declaration) (declaration : Declaration) : Symbol :=
  ⟨declaration.name, declaration.type, declaration.kind, countOf before declaration.kind⟩

/-- What a name stands for in a scope, when some declarations stand before the given ones. -/
def resolveAfter (before : List Declaration) : List Declaration → String → Option Symbol
  | [], _ => none
  | declaration :: rest, name =>
    if declaration.name = name then some (declaration.symbol before)
    else resolveAfter (before ++ [declaration]) rest name

/-- What a name stands for in a scope. -/
def resolve (declared : List Declaration) (name : String) : Option Symbol :=
  resolveAfter [] declared name

/-- A scope declares no name twice, and not too many names of any kind. -/
structure LawfulScope (declared : List Declaration) : Prop where
  distinct : (declared.map Declaration.name).Nodup
  bounded : ∀ kind, countOf declared kind ≤ 32768

namespace ClassTree

/-- The context of a subroutine's body: the names of the subroutine hide those of the class. -/
def context (tree : ClassTree) (subroutine : SubroutineTree) : Context where
  className := tree.name
  subroutine := subroutine.head
  symbol? name :=
    resolve (subroutine.declarations tree.name) name <|> resolve tree.declarations name

/-- The header of a subroutine announces the number of its local variables. -/
def header (tree : ClassTree) (subroutine : SubroutineTree) : Command :=
  .function s!"{tree.name}.{subroutine.name}" (countOf subroutine.ownDeclarations .localVar)

/-- The commands that set the base of the current object, where there is one. -/
def prologue (tree : ClassTree) (subroutine : SubroutineTree) : List Command :=
  match subroutine.kind with
  | .constructor =>
    [.push .constant (countOf tree.declarations .field), .call "Memory.alloc" 1, .pop .pointer 0]
  | .method => [.push .argument 0, .pop .pointer 0]
  | .function => []

/-- The commands that open a subroutine. -/
def opening (tree : ClassTree) (subroutine : SubroutineTree) : List Command :=
  tree.header subroutine :: tree.prologue subroutine

/-- The code of each subroutine, with the labels of the first one numbered from the given number. -/
def blocks (tree : ClassTree) (next : Nat) : List SubroutineTree → List (List Command)
  | [] => []
  | subroutine :: rest =>
    (tree.opening subroutine ++ subroutine.body.code (tree.context subroutine) next) ::
      tree.blocks (next + subroutine.body.labels) rest

/-- The code of a class is the code of its subroutines, one behind the other. -/
def code (tree : ClassTree) : List Command := (tree.blocks 0 tree.subroutines).flatten

/-- A class declares and uses names as the language allows. -/
structure Lawful (tree : ClassTree) : Prop where
  scope : LawfulScope tree.declarations
  /-- The size of an object is a machine constant. -/
  fields : countOf tree.declarations .field ≤ 32767
  scopes : ∀ subroutine ∈ tree.subroutines, LawfulScope (subroutine.declarations tree.name)
  bodies : ∀ subroutine ∈ tree.subroutines, subroutine.body.Lawful (tree.context subroutine)

end ClassTree

end JackCompiler
