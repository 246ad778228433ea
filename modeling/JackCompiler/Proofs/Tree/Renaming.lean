import JackCompiler.Proofs.Token.Respelling
import JackCompiler.Proofs.Tree.Class

/-! Variables under other names: only their declarations and their uses are written otherwise. -/

namespace JackCompiler

mutual

/-- A term whose variables have other names. -/
def Term.rename (rename : String → String) : Term → Term
  | .integer value => .integer value
  | .string body => .string body
  | .word constant => .word constant
  | .group inner => .group (inner.rename rename)
  | .unary operator operand => .unary operator (operand.rename rename)
  | .name name => .name (rename name)
  | .element array index => .element (rename array) (index.rename rename)
  | .call call => .call (call.rename rename)

/-- An expression whose variables have other names. -/
def Expression.rename (rename : String → String) : Expression → Expression
  | .mk first rest => .mk (first.rename rename) (rest.rename rename)

/-- Operands whose variables have other names. -/
def Operations.rename (rename : String → String) : Operations → Operations
  | .nil => .nil
  | .cons operator operand rest => .cons operator (operand.rename rename) (rest.rename rename)

/-- A call whose variables have other names: what stands in front of a dot may be one, but not the
name of the subroutine. -/
def Call.rename (rename : String → String) : Call → Call
  | .own name arguments => .own name (arguments.rename rename)
  | .member owner name arguments => .member (rename owner) name (arguments.rename rename)

/-- Arguments whose variables have other names. -/
def Arguments.rename (rename : String → String) : Arguments → Arguments
  | .nil => .nil
  | .cons first rest => .cons (first.rename rename) (rest.rename rename)

end

mutual

/-- A statement whose variables have other names. -/
def Statement.rename (rename : String → String) : Statement → Statement
  | .assign target value => .assign (rename target) (value.rename rename)
  | .assignElement array index value =>
    .assignElement (rename array) (index.rename rename) (value.rename rename)
  | .ifThen condition body => .ifThen (condition.rename rename) (body.rename rename)
  | .ifThenElse condition body otherwise =>
    .ifThenElse (condition.rename rename) (body.rename rename) (otherwise.rename rename)
  | .whileDo condition body => .whileDo (condition.rename rename) (body.rename rename)
  | .call call => .call (call.rename rename)
  | .returnNothing => .returnNothing
  | .returnValue value => .returnValue (value.rename rename)

/-- Statements whose variables have other names. -/
def Statements.rename (rename : String → String) : Statements → Statements
  | .nil => .nil
  | .cons first rest => .cons (first.rename rename) (rest.rename rename)

end

/-- Variables that are declared under other names, with the same type. -/
def VariableList.rename (rename : String → String) (list : VariableList) : VariableList :=
  { list with first := rename list.first, others := list.others.map rename }

/-- A parameter that is declared under another name, with the same type. -/
def Parameter.rename (rename : String → String) (parameter : Parameter) : Parameter :=
  { parameter with name := rename parameter.name }

/-- A subroutine whose parameters and local variables have other names, where they are declared and
where they are used. Its own name, and the types that it names, stay. -/
def SubroutineTree.rename (rename : String → String) (tree : SubroutineTree) : SubroutineTree :=
  { tree with
    parameters := tree.parameters.map (·.rename rename)
    locals := tree.locals.map (·.rename rename)
    body := tree.body.rename rename }

/-- A class in which the variables of the subroutine with the given index have other names. Names of
the class, and of its other subroutines, stay. -/
def ClassTree.rename (index : Nat) (rename : String → String) (tree : ClassTree) : ClassTree :=
  { tree with subroutines := tree.subroutines.modify index (·.rename rename) }

/-- No name stands first where none stands first in the two parts. -/
theorem NoNameFirst.append {kinds rest : List TokenKind} (first : NoNameFirst kinds)
    (more : NoNameFirst rest) : NoNameFirst (kinds ++ rest) := by
  cases kinds with
  | nil => exact more
  | cons kind kinds => exact first

/-- No name stands where a mark does. -/
theorem NoNameFirst.symbol (c : Char) (kinds : List TokenKind) :
    NoNameFirst (.symbol c :: kinds) := fun _ => nofun

namespace Respells

variable {kinds others rest after : List TokenKind}

/-- Tokens may be replaced one behind the other, if no name stands where the later ones start. -/
theorem append (first : Respells kinds others) (ends : NoNameFirst rest)
    (more : Respells rest after) : Respells (kinds ++ rest) (others ++ after) := by
  induction first with
  | nil => exact more
  | same noNumber _ ih => exact .same noNumber ih
  | integer value apart _ ih => exact .integer value (apart.append ends) ih
  | name name named _ ih => exact .name name named ih

/-- A mark stays. -/
theorem symbol (c : Char) (rest : Respells kinds others) :
    Respells (.symbol c :: kinds) (.symbol c :: others) :=
  .same nofun rest

/-- A name may stay. -/
theorem kept (name : String) (rest : Respells kinds others) :
    Respells (.identifier name :: kinds) (.identifier name :: others) :=
  .same nofun rest

/-- A keyword stays. -/
theorem keyword (word : Keyword) (rest : Respells kinds others) :
    Respells (.keyword word :: kinds) (.keyword word :: others) :=
  .same nofun rest

/-- Tokens may be replaced in front of a mark. -/
theorem before_symbol (first : Respells kinds others) (c : Char) (more : Respells rest after) :
    Respells (kinds ++ .symbol c :: rest) (others ++ .symbol c :: after) :=
  first.append (.symbol c rest) (more.symbol c)

/-- Where tokens may be replaced, they may also stay. -/
theorem unchanged (respells : Respells kinds others) : Respells kinds kinds := by
  induction respells with
  | nil => exact .nil
  | same noNumber _ ih => exact .same noNumber ih
  | integer value apart _ ih => exact .integer value apart ih
  | name name _ _ ih => exact .kept name ih

end Respells

/-- Every name stays, or it is replaced by something that is a name. -/
def KeepsNames (rename : String → String) : Prop :=
  ∀ name, rename name = name ∨ IsName (rename name)

section

variable {rename : String → String}

/-- A name is replaced in front of the others. -/
theorem KeepsNames.variable (keeps : KeepsNames rename) {kinds others : List TokenKind}
    (name : String) (rest : Respells kinds others) :
    Respells (.identifier name :: kinds) (.identifier (rename name) :: others) := by
  rcases keeps name with same | named
  · rw [same]
    exact .kept name rest
  · exact .name name named rest

mutual

/-- The tokens of a term change only in the names of its variables. -/
theorem Term.respells (keeps : KeepsNames rename) (term : Term) :
    Respells term.kinds (term.rename rename).kinds := by
  cases term with
  | integer value => exact .integer value (fun _ => nofun) .nil
  | string body => exact .same nofun .nil
  | word constant => exact .keyword constant.keyword .nil
  | group inner => exact .symbol '(' ((Expression.respells keeps inner).before_symbol ')' .nil)
  | unary operator operand => exact .symbol operator.mark (Term.respells keeps operand)
  | name name => exact keeps.variable name .nil
  | element array index =>
    exact keeps.variable array
      (.symbol '[' ((Expression.respells keeps index).before_symbol ']' .nil))
  | call call => exact Call.respells keeps call
termination_by structural term

/-- The tokens of an expression change only in the names of its variables. -/
theorem Expression.respells (keeps : KeepsNames rename) (value : Expression) :
    Respells value.kinds (value.rename rename).kinds := by
  cases value with
  | mk first rest =>
    -- Behind the first operand stands an operator, if anything does.
    refine (Term.respells keeps first).append ?_ (Operations.respells keeps rest)
    cases rest with
    | nil | cons => exact fun _ => nofun
termination_by structural value

/-- The tokens of operators and operands change only in the names of variables. -/
theorem Operations.respells (keeps : KeepsNames rename) (operations : Operations) :
    Respells operations.kinds (operations.rename rename).kinds := by
  cases operations with
  | nil => exact .nil
  | cons operator operand rest =>
    refine .symbol operator.mark
      ((Term.respells keeps operand).append ?_ (Operations.respells keeps rest))
    cases rest with
    | nil | cons => exact fun _ => nofun
termination_by structural operations

/-- The tokens of a call change only in the names of variables. -/
theorem Call.respells (keeps : KeepsNames rename) (call : Call) :
    Respells call.kinds (call.rename rename).kinds := by
  cases call with
  | own name arguments =>
    have passed := (Arguments.respells keeps arguments).before_symbol ')' .nil
    exact .kept name (passed.symbol '(')
  | member owner name arguments =>
    have passed := (Arguments.respells keeps arguments).before_symbol ')' .nil
    -- What is called keeps its name, also if a variable has the same one.
    exact keeps.variable owner (.symbol '.' (.kept name (passed.symbol '(')))
termination_by structural call

/-- The tokens of arguments change only in the names of variables. -/
theorem Arguments.respells (keeps : KeepsNames rename) (arguments : Arguments) :
    Respells arguments.kinds (arguments.rename rename).kinds := by
  cases arguments with
  | nil => exact .nil
  | cons first rest =>
    refine (Expression.respells keeps first).append ?_ (Arguments.respells_more keeps rest)
    cases rest with
    | nil | cons => exact fun _ => nofun
termination_by structural arguments

/-- The tokens of further arguments change only in the names of variables. -/
theorem Arguments.respells_more (keeps : KeepsNames rename) (arguments : Arguments) :
    Respells arguments.moreKinds (arguments.rename rename).moreKinds := by
  cases arguments with
  | nil => exact .nil
  | cons first rest =>
    refine .symbol ','
      ((Expression.respells keeps first).append ?_ (Arguments.respells_more keeps rest))
    cases rest with
    | nil | cons => exact fun _ => nofun
termination_by structural arguments

end

/-- Statements start with keywords. -/
theorem Statements.noNameFirst (statements : Statements) : NoNameFirst statements.kinds := by
  cases statements with
  | nil => exact fun _ => nofun
  | cons first rest => cases first <;> exact fun _ => nofun

mutual

/-- The tokens of a statement change only in the names of variables. -/
theorem Statement.respells (keeps : KeepsNames rename) (statement : Statement) :
    Respells statement.kinds (statement.rename rename).kinds := by
  -- The parts of a statement stand between keywords and marks, which stay.
  cases statement with
  | assign target value =>
    have assigned := (Expression.respells keeps value).before_symbol ';' .nil
    exact .keyword .«let» (keeps.variable target (assigned.symbol '='))
  | assignElement array index value =>
    have assigned := (Expression.respells keeps value).before_symbol ';' .nil
    have element := (Expression.respells keeps index).before_symbol ']' (assigned.symbol '=')
    simp only [Statement.kinds, Statement.rename, List.cons_append, List.append_assoc]
    exact .keyword .«let» (keeps.variable array (element.symbol '['))
  | ifThen condition body =>
    have block := (Statements.respells keeps body).before_symbol '}' .nil
    have guarded := (Expression.respells keeps condition).before_symbol ')' (block.symbol '{')
    simp only [Statement.kinds, Statement.rename, List.cons_append, List.append_assoc]
    exact .keyword .«if» (guarded.symbol '(')
  | ifThenElse condition body otherwise =>
    have last := (Statements.respells keeps otherwise).before_symbol '}' .nil
    have block := (Statements.respells keeps body).before_symbol '}'
      ((last.symbol '{').keyword .«else»)
    have guarded := (Expression.respells keeps condition).before_symbol ')' (block.symbol '{')
    simp only [Statement.kinds, Statement.rename, List.cons_append, List.append_assoc]
    exact .keyword .«if» (guarded.symbol '(')
  | whileDo condition body =>
    have block := (Statements.respells keeps body).before_symbol '}' .nil
    have guarded := (Expression.respells keeps condition).before_symbol ')' (block.symbol '{')
    simp only [Statement.kinds, Statement.rename, List.cons_append, List.append_assoc]
    exact .keyword .«while» (guarded.symbol '(')
  | call call =>
    exact .keyword .«do» ((Call.respells keeps call).before_symbol ';' .nil)
  | returnNothing => exact .keyword .«return» (.symbol ';' .nil)
  | returnValue value =>
    exact .keyword .«return» ((Expression.respells keeps value).before_symbol ';' .nil)
termination_by structural statement

/-- The tokens of statements change only in the names of variables. -/
theorem Statements.respells (keeps : KeepsNames rename) (statements : Statements) :
    Respells statements.kinds (statements.rename rename).kinds := by
  cases statements with
  | nil => exact .nil
  | cons first rest =>
    exact (Statement.respells keeps first).append rest.noNameFirst (Statements.respells keeps rest)
termination_by structural statements

end

/-- A type is no number. -/
theorem TypeName.kind_ne_integer (type : TypeName) (value : Nat) : type.kind ≠ .integer value := by
  cases type with
  | primitive | named => nofun

/-- What a subroutine returns is no number. -/
theorem SubroutineTree.resultKind_ne_integer (result? : Option TypeName) (value : Nat) :
    resultKind result? ≠ .integer value := by
  cases result? with
  | none => nofun
  | some type => exact type.kind_ne_integer value

/-- Declared names are replaced one by one, behind their commas. -/
theorem respells_moreNames (keeps : KeepsNames rename) (names : List String)
    {kinds others : List TokenKind} (rest : Respells kinds others) :
    Respells (moreNames names ++ kinds) (moreNames (names.map rename) ++ others) := by
  induction names with
  | nil => exact rest
  | cons name names ih => exact .symbol ',' (keeps.variable name ih)

/-- The tokens of a list of variables change only in their names. -/
theorem VariableList.respells (keeps : KeepsNames rename) (list : VariableList) :
    Respells list.kinds (list.rename rename).kinds :=
  .same list.type.kind_ne_integer (keeps.variable list.first
    (respells_moreNames keeps list.others (.symbol ';' .nil)))

/-- The tokens of local variables change only in their names. -/
theorem respells_localKinds (keeps : KeepsNames rename) (locals : List VariableList) :
    Respells (localKinds locals) (localKinds (locals.map (·.rename rename))) := by
  induction locals with
  | nil => exact .nil
  | cons list rest ih =>
    refine ((list.respells keeps).keyword .var).append ?_ ih
    cases rest with
    | nil | cons => exact fun _ => nofun

/-- The tokens of further parameters change only in their names. -/
theorem Parameter.respells_moreKinds (keeps : KeepsNames rename) (parameters : List Parameter) :
    Respells (moreKinds parameters) (moreKinds (parameters.map (·.rename rename))) := by
  induction parameters with
  | nil => exact .nil
  | cons parameter rest ih =>
    exact .symbol ',' (.same parameter.type.kind_ne_integer (keeps.variable parameter.name ih))

/-- The tokens of parameters change only in their names. -/
theorem Parameter.respells_allKinds (keeps : KeepsNames rename) (parameters : List Parameter) :
    Respells (allKinds parameters) (allKinds (parameters.map (·.rename rename))) := by
  cases parameters with
  | nil => exact .nil
  | cons first others =>
    exact .same first.type.kind_ne_integer
      (keeps.variable first.name (respells_moreKinds keeps others))

/-- The tokens of a subroutine change only in the names of its variables. -/
theorem SubroutineTree.respells (keeps : KeepsNames rename) (tree : SubroutineTree) :
    Respells tree.kinds (tree.rename rename).kinds := by
  have inside := (tree.body.respells keeps).before_symbol '}' .nil
  have block := (respells_localKinds keeps tree.locals).append
    (tree.body.noNameFirst.append (.symbol '}' [])) inside
  have declared := (Parameter.respells_allKinds keeps tree.parameters).before_symbol ')'
    (block.symbol '{')
  simp only [kinds, restKinds, SubroutineTree.rename, List.cons_append, List.append_assoc]
  -- The kind, the type of the result and the name of the subroutine stay.
  exact .keyword tree.kind.keyword
    (.same (resultKind_ne_integer tree.result?) (.kept tree.name (declared.symbol '(')))

/-- The tokens of variables of a class may stay. -/
theorem ClassVariables.respells_self (keeps : KeepsNames rename)
    (classVariables : List ClassVariables) :
    Respells (classVariables.flatMap kinds) (classVariables.flatMap kinds) := by
  induction classVariables with
  | nil => exact .nil
  | cons first rest ih =>
    refine ((first.list.respells keeps).unchanged.keyword first.kind.keyword).append ?_ ih
    cases rest with
    | nil | cons => exact fun _ => nofun

/-- Subroutines start with keywords. -/
theorem SubroutineTree.noNameFirst (subroutines : List SubroutineTree) :
    NoNameFirst (subroutines.flatMap kinds) := by
  cases subroutines with
  | nil | cons => exact fun _ => nofun

/-- The tokens of subroutines change only in the names of the variables of one of them. -/
theorem SubroutineTree.respells_modify (keeps : KeepsNames rename)
    (subroutines : List SubroutineTree) (index : Nat) :
    Respells (subroutines.flatMap kinds)
      ((subroutines.modify index (·.rename rename)).flatMap kinds) := by
  induction subroutines generalizing index with
  | nil =>
    rw [List.modify_nil]
    exact .nil
  | cons first rest ih =>
    cases index with
    | zero =>
      have others := (ih rest.length).unchanged
      exact (first.respells keeps).append (noNameFirst rest) others
    | succ index => exact (first.respells keeps).unchanged.append (noNameFirst rest) (ih index)

/-- The tokens of a class change only in the names of the variables of one subroutine. -/
theorem ClassTree.respells (keeps : KeepsNames rename) (tree : ClassTree) (index : Nat) :
    Respells tree.kinds (tree.rename index rename).kinds := by
  have subroutines := (SubroutineTree.respells_modify keeps tree.subroutines index).before_symbol
    '}' .nil
  have inside := (ClassVariables.respells_self keeps tree.classVariables).append
    ((SubroutineTree.noNameFirst tree.subroutines).append (.symbol '}' [])) subroutines
  simp only [kinds, ClassTree.rename, List.cons_append, List.append_assoc]
  exact .keyword .«class» (.kept tree.name (inside.symbol '{'))

end

end JackCompiler
