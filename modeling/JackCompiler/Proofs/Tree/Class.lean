import JackCompiler.Compilation.ClassUnit
import JackCompiler.Proofs.Tree.Expression

/-! Statements, declarations and whole classes as trees, and the tokens that spell them. -/

namespace JackCompiler

mutual

/-- One statement. -/
inductive Statement where
  | assign (target : String) (value : Expression)
  | assignElement (array : String) (index value : Expression)
  | ifThen (condition : Expression) (body : Statements)
  | ifThenElse (condition : Expression) (body otherwise : Statements)
  | whileDo (condition : Expression) (body : Statements)
  | call (call : Call)
  /-- A return without an expression. -/
  | returnNothing
  | returnValue (value : Expression)

/-- Statements that are executed one after the other. -/
inductive Statements where
  | nil
  | cons (first : Statement) (rest : Statements)

end

mutual

/-- The tokens of a statement. -/
def Statement.kinds : Statement → List TokenKind
  | .assign target value =>
    .keyword .«let» :: .identifier target :: .symbol '=' :: value.kinds ++ [.symbol ';']
  | .assignElement array index value =>
    .keyword .«let» :: .identifier array :: .symbol '[' :: index.kinds ++
      .symbol ']' :: .symbol '=' :: value.kinds ++ [.symbol ';']
  | .ifThen condition body =>
    .keyword .«if» :: .symbol '(' :: condition.kinds ++
      .symbol ')' :: .symbol '{' :: body.kinds ++ [.symbol '}']
  | .ifThenElse condition body otherwise =>
    .keyword .«if» :: .symbol '(' :: condition.kinds ++
      .symbol ')' :: .symbol '{' :: body.kinds ++
      .symbol '}' :: .keyword .«else» :: .symbol '{' :: otherwise.kinds ++ [.symbol '}']
  | .whileDo condition body =>
    .keyword .«while» :: .symbol '(' :: condition.kinds ++
      .symbol ')' :: .symbol '{' :: body.kinds ++ [.symbol '}']
  | .call call => .keyword .«do» :: call.kinds ++ [.symbol ';']
  | .returnNothing => [.keyword .«return», .symbol ';']
  | .returnValue value => .keyword .«return» :: value.kinds ++ [.symbol ';']

/-- The tokens of statements. -/
def Statements.kinds : Statements → List TokenKind
  | .nil => []
  | .cons first rest => first.kinds ++ rest.kinds

end

/-- The types that are written as keywords. -/
inductive PrimitiveType where
  | int
  | char
  | boolean
deriving DecidableEq

/-- The keyword of a primitive type. -/
def PrimitiveType.keyword : PrimitiveType → Keyword
  | .int => .int
  | .char => .char
  | .boolean => .boolean

/-- A type as it is written in a declaration. -/
inductive TypeName where
  | primitive (type : PrimitiveType)
  /-- The objects of the named class. -/
  | named (name : String)
deriving DecidableEq

namespace TypeName

/-- The token that a type is written as. -/
def kind : TypeName → TokenKind
  | .primitive type => .keyword type.keyword
  | .named name => .identifier name

/-- The text that a type is known by. -/
def text : TypeName → String
  | .primitive type => type.keyword.text
  | .named name => name

end TypeName

/-- A declared name, with its type and its kind. -/
structure Declaration where
  name : String
  type : String
  kind : SymbolKind
deriving DecidableEq

/-- The tokens of names that follow another one, each after a comma. -/
def moreNames (names : List String) : List TokenKind :=
  names.flatMap fun name => [.symbol ',', .identifier name]

/-- A type with one or more names that are declared with it. -/
structure VariableList where
  type : TypeName
  first : String
  others : List String
deriving DecidableEq

namespace VariableList

/-- The names of a list of variables. -/
def names (list : VariableList) : List String := list.first :: list.others

/-- The tokens of a list of variables, up to its semicolon. -/
def kinds (list : VariableList) : List TokenKind :=
  list.type.kind :: .identifier list.first :: moreNames list.others ++ [.symbol ';']

/-- The declarations that a list makes when its variables are of the given kind. -/
def declarations (list : VariableList) (kind : SymbolKind) : List Declaration :=
  list.names.map fun name => ⟨name, list.type.text, kind⟩

end VariableList

/-- The two kinds of variables that belong to a class. -/
inductive ClassVariableKind where
  | static
  | field
deriving DecidableEq

namespace ClassVariableKind

/-- The keyword that opens a declaration of variables of a class. -/
def keyword : ClassVariableKind → Keyword
  | .static => .static
  | .field => .field

/-- The kind of symbol that is declared. -/
def symbolKind : ClassVariableKind → SymbolKind
  | .static => .static
  | .field => .field

end ClassVariableKind

/-- One declaration of variables of a class. -/
structure ClassVariables where
  kind : ClassVariableKind
  list : VariableList
deriving DecidableEq

namespace ClassVariables

/-- The tokens of a declaration of variables of a class. -/
def kinds (classVariables : ClassVariables) : List TokenKind :=
  .keyword classVariables.kind.keyword :: classVariables.list.kinds

/-- The names that are declared. -/
def declarations (classVariables : ClassVariables) : List Declaration :=
  classVariables.list.declarations classVariables.kind.symbolKind

end ClassVariables

/-- A parameter of a subroutine. -/
structure Parameter where
  type : TypeName
  name : String
deriving DecidableEq

namespace Parameter

/-- The tokens of a parameter. -/
def kinds (parameter : Parameter) : List TokenKind :=
  [parameter.type.kind, .identifier parameter.name]

/-- A parameter declares an argument. -/
def declaration (parameter : Parameter) : Declaration :=
  ⟨parameter.name, parameter.type.text, .argument⟩

/-- The tokens of parameters that follow another one, each after a comma. -/
def moreKinds (parameters : List Parameter) : List TokenKind :=
  parameters.flatMap fun parameter => .symbol ',' :: parameter.kinds

/-- The tokens of parameters, with commas between them. -/
def allKinds : List Parameter → List TokenKind
  | [] => []
  | first :: others => first.kinds ++ moreKinds others

end Parameter

/-- The tokens of a parameter are among those of the parameters. -/
theorem Parameter.kinds_subset_allKinds {parameters : List Parameter} {parameter : Parameter}
    (member : parameter ∈ parameters) : parameter.kinds ⊆ allKinds parameters := by
  intro kind inside
  cases parameters with
  | nil => cases member
  | cons first others =>
    -- Only the first parameter stands behind no comma.
    rcases List.mem_cons.mp member with rfl | member
    · exact List.mem_append_left _ inside
    · exact List.mem_append_right _ (List.mem_flatMap_of_mem member (.tail _ inside))

/-- The keyword that opens a subroutine. -/
def SubroutineKind.keyword : SubroutineKind → Keyword
  | .constructor => .constructor
  | .function => .function
  | .method => .method

/-- The tokens of the local variables of a subroutine. -/
def localKinds (locals : List VariableList) : List TokenKind :=
  locals.flatMap fun list => .keyword .var :: list.kinds

/-- A whole subroutine. -/
structure SubroutineTree where
  kind : SubroutineKind
  /-- The type of the value that is returned, if the subroutine is not declared `void`. -/
  result? : Option TypeName
  name : String
  parameters : List Parameter
  locals : List VariableList
  body : Statements

namespace SubroutineTree

/-- The token that stands where the type of the returned value is declared. -/
def resultKind (result? : Option TypeName) : TokenKind :=
  (result?.map TypeName.kind).getD (.keyword .void)

/-- The tokens of a subroutine that follow its name. -/
def restKinds (tree : SubroutineTree) : List TokenKind :=
  .symbol '(' :: Parameter.allKinds tree.parameters ++ .symbol ')' :: .symbol '{' ::
    localKinds tree.locals ++ tree.body.kinds ++ [.symbol '}']

/-- The tokens of a subroutine. -/
def kinds (tree : SubroutineTree) : List TokenKind :=
  .keyword tree.kind.keyword :: resultKind tree.result? :: .identifier tree.name :: tree.restKinds

/-- The head of a subroutine, as far as its body depends on it. -/
def head (tree : SubroutineTree) : Subroutine := ⟨tree.kind, tree.result?.isNone, tree.name⟩

/-- The object that a method receives, as its first argument. -/
def receiver (tree : SubroutineTree) (className : String) : List Declaration :=
  match tree.kind with
  | .method => [⟨"this", className, .argument⟩]
  | .constructor | .function => []

/-- The parameters and the local variables that a subroutine declares. -/
def ownDeclarations (tree : SubroutineTree) : List Declaration :=
  tree.parameters.map Parameter.declaration ++ tree.locals.flatMap (·.declarations .localVar)

/-- All names of a subroutine of the given class, in the order of their declaration. -/
def declarations (tree : SubroutineTree) (className : String) : List Declaration :=
  tree.receiver className ++ tree.ownDeclarations

/-- The tokens of a body are tokens of its subroutine. -/
theorem body_kinds_subset (tree : SubroutineTree) : tree.body.kinds ⊆ tree.kinds := by
  intro kind inside
  simp [kinds, restKinds, inside]

/-- The tokens of a parameter are tokens of its subroutine. -/
theorem kinds_subset_of_parameter {tree : SubroutineTree} {parameter : Parameter}
    (member : parameter ∈ tree.parameters) : parameter.kinds ⊆ tree.kinds := by
  intro kind inside
  simp [kinds, restKinds, Parameter.kinds_subset_allKinds member inside]

/-- The tokens of local variables are tokens of their subroutine. -/
theorem kinds_subset_of_local {tree : SubroutineTree} {list : VariableList}
    (member : list ∈ tree.locals) : list.kinds ⊆ tree.kinds := by
  intro kind inside
  have declared : kind ∈ localKinds tree.locals :=
    List.mem_flatMap_of_mem member (.tail _ inside)
  simp [kinds, restKinds, declared]

end SubroutineTree

/-- A whole class. -/
structure ClassTree where
  name : String
  classVariables : List ClassVariables
  subroutines : List SubroutineTree

namespace ClassTree

/-- The tokens of a class. -/
def kinds (tree : ClassTree) : List TokenKind :=
  .keyword .«class» :: .identifier tree.name :: .symbol '{' ::
    tree.classVariables.flatMap ClassVariables.kinds ++
    tree.subroutines.flatMap SubroutineTree.kinds ++ [.symbol '}']

/-- The names of a class, in the order of their declaration. -/
def declarations (tree : ClassTree) : List Declaration :=
  tree.classVariables.flatMap ClassVariables.declarations

/-- The tokens of a declaration are tokens of the class. -/
theorem kinds_subset_of_classVariables {tree : ClassTree} {classVariables : ClassVariables}
    (member : classVariables ∈ tree.classVariables) : classVariables.kinds ⊆ tree.kinds := by
  intro kind inside
  have declared := List.mem_flatMap_of_mem member inside
  -- The declarations stand behind the three tokens that open the class.
  exact .tail _ (.tail _ (.tail _ (List.mem_append_left _ (List.mem_append_left _ declared))))

/-- The tokens of a subroutine are tokens of the class. -/
theorem kinds_subset_of_subroutine {tree : ClassTree} {subroutine : SubroutineTree}
    (member : subroutine ∈ tree.subroutines) : subroutine.kinds ⊆ tree.kinds := by
  intro kind inside
  have declared := List.mem_flatMap_of_mem member inside
  -- The subroutines stand behind the declarations.
  exact .tail _ (.tail _ (.tail _ (List.mem_append_left _ (List.mem_append_right _ declared))))

end ClassTree

end JackCompiler
